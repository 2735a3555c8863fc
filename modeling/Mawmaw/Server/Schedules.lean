import Mathlib.Data.Multiset.Filter
import Mawmaw.Lib.TaskSystem
import Mawmaw.Server.Startup

/-!
# Schedules

The running pipeline as a task system: a task is an action of a thread or an event in a queue, an
output is a delivery to an endpoint or a trigger handed to a script.

* `IsPure` : a script whose output depends on its trigger only, at the entry its calls go to;
* `tasks` : what each task leads to and gives out, fixed by the wiring;
* `Pipeline.pending`, `Pipeline.outcomes` : the bags of a state;
* `perform_bags`, `step_simulates` : a turn does one task or none, as long as no queue overflows;
* `drained_runs_agree` : all schedules that finish give the same deliveries and triggers.
-/

namespace Mawmaw.Server
open Mawmaw.Lib Mawmaw.Conf Mawmaw.Core Mawmaw.Pub

variable {P : Nat}

/-- The script, called in its mode, emits `f` of its trigger, whatever the windows hold and whatever it
was called with before. -/
structure IsPure (script : IScript P) (f : Event P → List (Event P)) : Prop where
  zeroCopy : script.mode = .zeroCopy → ∀ earlier input rings,
    (script.invokeZeroCopy earlier input rings).emitted = f input.triggerEvent
  snapshot : script.mode = .snapshot → ∀ earlier input,
    (script.invokeSnapshot earlier input).emitted = f input.triggerEvent

/-- What is left to do. -/
inductive Task (P : Nat)
  | act (a : Action P)
  | queued (i : Nat) (ev : Event P)

/-- What is seen from outside. -/
inductive Outcome (P : Nat)
  | delivered (id : Str) (ev : Event P)
  | triggered (i : Nat) (ev : Event P)

/-- The part of the router no thread changes. -/
structure Wiring (P : Nat) where
  routeTable : UMap Str (List Str)
  handlers : UMap Str (HandlerEntry P)
  queues : Nat
  hasEndpoint : Str → Bool

/-- The configuration of a router; without a publisher there are no endpoints. -/
def wiring (r : StreamRouter P) : Wiring P where
  routeTable := r.routeTable
  handlers := r.handlers
  queues := r.queues.length
  hasEndpoint id := (r.publisher.map fun pub => pub.hasEndpoint id).getD false

/-- What one task leaves to do. -/
def next (scripts : List (ScriptThread P)) (f : Nat → Event P → List (Event P)) (c : Wiring P) :
    Task P → Multiset (Task P)
  | .act (.emit name ev) => {.act (.route (rename name ev))}
  | .act (.route ev) =>
    (((UMap.getD c.routeTable ev.stream []).map fun id => .act (.target ev id) : List (Task P)))
  | .act (.target ev id) =>
    match c.handlers.lookup id with
    | some h => if h.queueIndex < c.queues then {.queued h.queueIndex ev} else 0
    | none => 0
  | .act (.dispatch i ev) =>
    match scripts[i]? with
    | some st => (((f i ev).map fun e => .act (.emit st.outputStream e) : List (Task P)))
    | none => 0
  | .queued i ev => {.act (.dispatch i ev)}

/-- What one task shows outside. -/
def out (c : Wiring P) : Task P → Multiset (Outcome P)
  | .act (.target ev id) =>
    match c.handlers.lookup id with
    | some _ => 0
    | none => if c.hasEndpoint id then {.delivered id ev} else 0
  | .queued i ev => {.triggered i ev}
  | .act _ => 0

/-- The tasks of a wiring; `f i` is what script `i` emits. -/
def tasks (scripts : List (ScriptThread P)) (f : Nat → Event P → List (Event P)) (c : Wiring P) :
    TaskSystem (Task P) (Outcome P) where
  next := next scripts f c
  out := out c

/-- The events in the queues. -/
def queuedBag (r : StreamRouter P) : Multiset (Task P) :=
  ∑ i ∈ Finset.range r.queues.length, ((r.unread i).map (Task.queued i) : Multiset (Task P))

def deliveredBag (r : StreamRouter P) : Multiset (Outcome P) :=
  ((((r.publisher.map (·.delivered)).getD []).map fun d => Outcome.delivered d.1 d.2 :
    List (Outcome P)))

def actBag (threads : List (List (Action P))) : Multiset (Task P) :=
  (threads.flatten : Multiset (Action P)).map .act

def triggerBag (triggers : List (Nat × Event P)) : Multiset (Outcome P) :=
  ((triggers.map fun t => Outcome.triggered t.1 t.2 : List (Outcome P)))

/-- Everything left to do. -/
def Pipeline.pending (s : Pipeline P) : Multiset (Task P) :=
  actBag s.workers + actBag s.ingestors + queuedBag s.router

def Pipeline.outcomes (s : Pipeline P) : Multiset (Outcome P) :=
  deliveredBag s.router + triggerBag s.triggers

/-! ## Changes to the queues -/

theorem unread_of {r : StreamRouter P} {i : Nat} {q : ScriptQueue P} {pos : UInt64}
    (hq : r.queues[i]? = some q) (hp : r.readPositions[i]? = some pos) :
    r.unread i = q.ring.unread pos := by
  rw [StreamRouter.unread, hq, hp]

theorem unread_congr {r r' : StreamRouter P} {i : Nat} (hq : r'.queues[i]? = r.queues[i]?)
    (hp : r'.readPositions[i]? = r.readPositions[i]?) : r'.unread i = r.unread i := by
  rw [StreamRouter.unread, StreamRouter.unread, hq, hp]

theorem length_queues_enqueue (r : StreamRouter P) (k : Nat) (ev : Event P) :
    (r.enqueue k ev).queues.length = r.queues.length := List.length_modify ..

/-- A write to a queue with room for it appends to the queue's unread events. -/
theorem unread_enqueue {r : StreamRouter P} {k : Nat} (hk : k < r.queues.length)
    (hrun : r.Running) (ev : Event P) (hcap : r.Fits k) (hcap' : (r.enqueue k ev).Fits k) :
    (r.enqueue k ev).unread k = r.unread k ++ [ev] := by
  have hpos : k < r.readPositions.length := by rw [hrun.positions]; exact hk
  have hq : r.queues[k]? = some r.queues[k] := List.getElem?_eq_getElem hk
  have hp : r.readPositions[k]? = some r.readPositions[k] := List.getElem?_eq_getElem hpos
  have hq' : (r.enqueue k ev).queues[k]? = some (r.queues[k].enqueue ev) := by
    rw [StreamRouter.enqueue, List.getElem?_modify_eq, hq]
    rfl
  have hp' : (r.enqueue k ev).readPositions[k]? = some r.readPositions[k] := hp
  have hafter := hcap' _ hq' _ hp'
  rw [ScriptQueue.enqueue_ring, RingBuffer.write_capacity] at hafter
  rw [unread_of hq hp, unread_of hq' hp', ScriptQueue.enqueue_ring,
    RingBuffer.unread_write ev (hcap _ hq _ hp) hafter]

theorem queuedBag_enqueue {r : StreamRouter P} {k : Nat} (hk : k < r.queues.length)
    (hrun : r.Running) (ev : Event P) (hcap : r.WithinCapacity)
    (hcap' : (r.enqueue k ev).WithinCapacity) :
    queuedBag (r.enqueue k ev) = queuedBag r + {.queued k ev} := by
  rw [queuedBag, queuedBag, length_queues_enqueue]
  refine sum_range_change hk (fun j hj => ?_) ?_
  · have hq : (r.enqueue k ev).queues[j]? = r.queues[j]? :=
      List.getElem?_modify_ne _ _ (Ne.symm hj)
    rw [unread_congr hq rfl]
  · rw [unread_enqueue hk hrun ev (hcap k) (hcap' k), List.map_append, ← Multiset.coe_add]
    rfl

/-- What a worker that is handed an event has done. -/
theorem waitForTrigger_returned {r r' : StreamRouter P} {i : Nat} {ev : Event P} {pos' : UInt64}
    (h : r.waitForTrigger i = (.returned (some ev) pos', r')) :
    ∃ q pos, r.queues[i]? = some q ∧ r.readPositions[i]? = some pos ∧ pos < q.ring.head ∧
      ev = q.ring.slot pos ∧
      r' = { r with readPositions := r.readPositions.set i (pos + 1) } := by
  unfold StreamRouter.waitForTrigger at h
  split at h
  · rename_i q pos hq hp
    unfold ScriptQueue.waitForTrigger at h
    by_cases hstop : q.stopped = true
    · simp [hstop] at h
    · by_cases hlt : q.ring.head > pos
      · rw [if_neg hstop, if_pos hlt, RingBuffer.read_of_lt _ (UInt64.lt_iff_toNat_lt.mp hlt)] at h
        obtain ⟨hret, hr'⟩ := Prod.mk.inj h
        obtain ⟨hev, -⟩ := WaitResult.returned.inj hret
        exact ⟨q, pos, hq, hp, hlt, (Option.some.inj hev).symm, hr'.symm⟩
      · simp [hstop, hlt] at h
  · simp at h

/-- The event a worker is handed leaves the bag. -/
theorem queuedBag_waitForTrigger {r r' : StreamRouter P} {i : Nat} {ev : Event P} {pos' : UInt64}
    (h : r.waitForTrigger i = (.returned (some ev) pos', r')) :
    queuedBag r = queuedBag r' + {.queued i ev} := by
  obtain ⟨q, pos, hq, hp, hlt, rfl, rfl⟩ := waitForTrigger_returned h
  obtain ⟨hi, -⟩ := List.getElem?_eq_some_iff.mp hq
  obtain ⟨hi', -⟩ := List.getElem?_eq_some_iff.mp hp
  let r' := { r with readPositions := r.readPositions.set i (pos + 1) }
  have hq' : r'.queues[i]? = some q := hq
  have hp' : r'.readPositions[i]? = some (pos + 1) := List.getElem?_set_self hi'
  rw [queuedBag, queuedBag]
  refine sum_range_change hi (fun j hj => ?_) ?_
  · have hset : r'.readPositions[j]? = r.readPositions[j]? := List.getElem?_set_ne (Ne.symm hj)
    have hunread : r'.unread j = r.unread j := unread_congr rfl hset
    rw [← hunread]
  · rw [unread_of hq hp, unread_of hq' hp', RingBuffer.unread_read hlt, List.map_cons,
      ← Multiset.cons_coe, ← Multiset.singleton_add]
    exact add_comm _ _

/-! ## One action -/

/-- `r'` differs from `r` in windows, counters and log lines only. -/
structure Quiet (r r' : StreamRouter P) : Prop where
  routeTable : r'.routeTable = r.routeTable
  handlers : r'.handlers = r.handlers
  publisher : r'.publisher = r.publisher
  queues : r'.queues = r.queues
  readPositions : r'.readPositions = r.readPositions

namespace Quiet
variable {r r' : StreamRouter P} (h : Quiet r r')
include h

theorem wiring : wiring r' = wiring r := by
  rw [Server.wiring, Server.wiring, h.routeTable, h.handlers, h.publisher, h.queues]

theorem running (hrun : r.Running) : r'.Running := by
  refine ⟨?_, ?_⟩
  · rw [h.readPositions, h.queues]
    exact hrun.positions
  · rw [h.queues]
    exact hrun.running

theorem queuedBag : queuedBag r' = queuedBag r := by
  rw [Server.queuedBag, Server.queuedBag, h.queues]
  refine Finset.sum_congr rfl fun i _ => ?_
  have hunread : r'.unread i = r.unread i :=
    unread_congr (by rw [h.queues]) (by rw [h.readPositions])
  rw [hunread]

theorem deliveredBag : deliveredBag r' = deliveredBag r := by
  rw [Server.deliveredBag, Server.deliveredBag, h.publisher]

end Quiet

theorem quiet_routeBegin (r : StreamRouter P) (ev : Event P) : Quiet r (r.routeBegin ev) :=
  ⟨rfl, rfl, rfl, rfl, rfl⟩

theorem quiet_call (d : Dispatch P) (r : StreamRouter P) (ev : Event P) (durationNs : UInt64) :
    Quiet r (d.call r ev durationNs).2 := by
  unfold Dispatch.call
  cases d.script.mode <;> exact ⟨rfl, rfl, rfl, rfl, rfl⟩

theorem quiet_tel (r : StreamRouter P) (tel : Telemetry) : Quiet r { r with tel } :=
  ⟨rfl, rfl, rfl, rfl, rfl⟩

theorem IsPure.call_emitted {d : Dispatch P} {f : Event P → List (Event P)} (h : IsPure d.script f)
    (r : StreamRouter P) (ev : Event P) (durationNs : UInt64) :
    (d.call r ev durationNs).1.emitted = f ev := by
  unfold Dispatch.call
  cases hmode : d.script.mode with
  | zeroCopy => exact h.zeroCopy hmode _ _ _
  | snapshot => exact h.snapshot hmode _ _

/-- **One target**: a queue write, a delivery or a log line, as the configuration says. -/
theorem routeTarget_cases (r : StreamRouter P) (ev : Event P) (id : Str) :
    (∃ h, (wiring r).handlers.lookup id = some h ∧
        r.routeTarget ev id = r.enqueue h.queueIndex ev) ∨
      ((wiring r).handlers.lookup id = none ∧ (wiring r).hasEndpoint id = true ∧
        ∃ pub tel, r.publisher = some pub ∧ r.routeTarget ev id
          = { r with
              publisher := some { pub with delivered := pub.delivered ++ [(id, ev)] }
              tel }) ∨
      ((wiring r).handlers.lookup id = none ∧ (wiring r).hasEndpoint id = false ∧
        Quiet r (r.routeTarget ev id)) := by
  show (∃ h, r.handlers.lookup id = some h ∧ _) ∨ (r.handlers.lookup id = none ∧ _) ∨
    (r.handlers.lookup id = none ∧ _)
  unfold StreamRouter.routeTarget
  cases hlook : r.handlers.lookup id with
  | some h => exact .inl ⟨h, rfl, rfl⟩
  | none =>
      cases hpub : r.publisher with
      | none => exact .inr (.inr ⟨rfl, by rw [wiring, hpub]; rfl, ⟨rfl, rfl, hpub.symm, rfl, rfl⟩⟩)
      | some pub =>
          have hwire : (wiring r).hasEndpoint id = pub.hasEndpoint id := by rw [wiring, hpub]; rfl
          cases hep : pub.hasEndpoint id with
          | true =>
              refine .inr (.inl ⟨rfl, hwire.trans hep, pub, (pub.publishTo r.tel ev id).2, rfl, ?_⟩)
              simp only [hep, if_true, Publisher.publishTo_of_hasEndpoint hep]
          | false =>
              refine .inr (.inr ⟨rfl, hwire.trans hep, ?_⟩)
              simpa [hep] using ⟨rfl, rfl, hpub.symm, rfl, rfl⟩

/-- What an action does not change: the configuration, and that every queue runs. -/
theorem routeTarget_keeps (r : StreamRouter P) (ev : Event P) (id : Str) (hrun : r.Running) :
    wiring (r.routeTarget ev id) = wiring r ∧ (r.routeTarget ev id).Running := by
  rcases routeTarget_cases r ev id with ⟨h, -, heq⟩ | ⟨-, -, pub, tel, hpub, heq⟩ | ⟨-, -, hq⟩
  · rw [heq]
    refine ⟨?_, ⟨?_, fun q hmem => ?_⟩⟩
    · rw [wiring, wiring, length_queues_enqueue]
      rfl
    · rw [length_queues_enqueue]
      exact hrun.positions
    · obtain ⟨j, hj, rfl⟩ := List.getElem_of_mem hmem
      rw [length_queues_enqueue] at hj
      have hold := hrun.running _ (List.getElem_mem hj)
      simp only [StreamRouter.enqueue, List.getElem_modify]
      split
      · exact hold
      · exact hold
  · rw [heq]
    refine ⟨?_, ⟨hrun.positions, hrun.running⟩⟩
    rw [wiring, wiring, hpub]
    rfl
  · exact ⟨hq.wiring, hq.running hrun⟩

theorem perform_keeps (scripts : List (ScriptThread P)) (durationNs : UInt64) (r : StreamRouter P)
    (hrun : r.Running) (a : Action P) :
    wiring (perform scripts durationNs r a).1 = wiring r ∧
      (perform scripts durationNs r a).1.Running := by
  cases a with
  | emit name ev => exact ⟨rfl, hrun⟩
  | route ev => exact ⟨(quiet_routeBegin r ev).wiring, (quiet_routeBegin r ev).running hrun⟩
  | target ev id => exact routeTarget_keeps r ev id hrun
  | dispatch i ev =>
      rw [perform]
      cases scripts[i]? with
      | none => exact ⟨rfl, hrun⟩
      | some st =>
          have hq := quiet_call st.dispatch r ev durationNs
          exact ⟨hq.wiring, hq.running hrun⟩

/-- One target moves its event to a queue, to an endpoint or nowhere. -/
theorem routeTarget_bags (scripts : List (ScriptThread P)) (f : Nat → Event P → List (Event P))
    {r : StreamRouter P} (hrun : r.Running) (ev : Event P) (id : Str) (hcap : r.WithinCapacity)
    (hcap' : (r.routeTarget ev id).WithinCapacity) :
    queuedBag (r.routeTarget ev id)
        = queuedBag r + next scripts f (wiring r) (.act (.target ev id)) ∧
      deliveredBag (r.routeTarget ev id)
        = deliveredBag r + out (wiring r) (.act (.target ev id)) := by
  rw [next, out]
  rcases routeTarget_cases r ev id with ⟨h, hlook, heq⟩ | ⟨hlook, hep, pub, tel, hpub, heq⟩ |
    ⟨hlook, hep, hq⟩
  · rw [hlook, heq]
    rw [heq] at hcap'
    refine ⟨?_, (add_zero _).symm⟩
    by_cases hk : h.queueIndex < r.queues.length
    · have hk' : h.queueIndex < (wiring r).queues := hk
      rw [queuedBag_enqueue hk hrun ev hcap hcap']
      simp only [hk', if_true]
    · have hk' : ¬ h.queueIndex < (wiring r).queues := hk
      have hsame : r.enqueue h.queueIndex ev = r := by
        rw [StreamRouter.enqueue, List.modify_eq_self (Nat.le_of_not_lt hk)]
      simp only [hsame, hk', if_false, add_zero]
  · rw [hlook, heq]
    refine ⟨(add_zero _).symm, ?_⟩
    simp only [deliveredBag, hpub, hep, if_true, Option.map_some, Option.getD_some,
      List.map_append, ← Multiset.coe_add]
    rfl
  · rw [hlook, hq.queuedBag, hq.deliveredBag]
    simp only [hep, Bool.false_eq_true, if_false, add_zero, and_self]

/-- **One action** does its task: the queues and the actions to come gain what the task leaves, the
deliveries gain what it gives out. -/
theorem perform_bags {scripts : List (ScriptThread P)} {f : Nat → Event P → List (Event P)}
    (hpure : ∀ i st, scripts[i]? = some st → IsPure st.dispatch.script (f i)) (durationNs : UInt64)
    {r : StreamRouter P} (hrun : r.Running) (a : Action P) (hcap : r.WithinCapacity)
    (hcap' : (perform scripts durationNs r a).1.WithinCapacity) :
    queuedBag (perform scripts durationNs r a).1
          + ((perform scripts durationNs r a).2 : Multiset (Action P)).map Task.act
        = queuedBag r + next scripts f (wiring r) (.act a) ∧
      deliveredBag (perform scripts durationNs r a).1
        = deliveredBag r + out (wiring r) (.act a) := by
  cases a with
  | emit name ev => exact ⟨rfl, (add_zero _).symm⟩
  | route ev =>
      have hq := quiet_routeBegin r ev
      refine ⟨?_, hq.deliveredBag.trans (add_zero _).symm⟩
      rw [perform, hq.queuedBag, next, Multiset.map_coe, List.map_map]
      rfl
  | target ev id =>
      obtain ⟨hqueued, hdelivered⟩ := routeTarget_bags scripts f hrun ev id hcap hcap'
      exact ⟨(add_zero _).trans hqueued, hdelivered⟩
  | dispatch i ev =>
      rw [perform, next]
      cases hst : scripts[i]? with
      | none => exact ⟨rfl, (add_zero _).symm⟩
      | some st =>
          have hq := quiet_call st.dispatch r ev durationNs
          refine ⟨?_, hq.deliveredBag.trans (add_zero _).symm⟩
          simp only [hq.queuedBag, (hpure i st hst).call_emitted, Multiset.map_coe, List.map_map]
          rfl

/-! ## One turn -/

theorem actBag_set {threads : List (List (Action P))} {i : Nat} {old : List (Action P)}
    (h : threads[i]? = some old) :
    ∃ K, actBag threads = K + (old : Multiset (Action P)).map .act ∧
      ∀ new : List (Action P),
        actBag (threads.set i new) = K + (new : Multiset (Action P)).map .act := by
  obtain ⟨K, hold, hnew⟩ := flatten_set_bag h
  refine ⟨K.map .act, ?_, fun new => ?_⟩
  · rw [actBag, hold, Multiset.map_add]
  · rw [actBag, hnew, Multiset.map_add]

/-- An action of a thread as a step; `K` is what the thread does not touch. -/
theorem perform_step {scripts : List (ScriptThread P)} {f : Nat → Event P → List (Event P)}
    (hpure : ∀ i st, scripts[i]? = some st → IsPure st.dispatch.script (f i)) (durationNs : UInt64)
    {r : StreamRouter P} (hrun : r.Running) (a : Action P) (hcap : r.WithinCapacity)
    (hcap' : (perform scripts durationNs r a).1.WithinCapacity) {M M' K : Multiset (Task P)}
    (hM : M = .act a ::ₘ K + queuedBag r)
    (hM' : M' = K + ((perform scripts durationNs r a).2 : Multiset (Action P)).map Task.act
      + queuedBag (perform scripts durationNs r a).1) (T : Multiset (Outcome P)) :
    (tasks scripts f (wiring r)).Step M (deliveredBag r + T) M'
      (deliveredBag (perform scripts durationNs r a).1 + T) := by
  obtain ⟨hqueued, hdelivered⟩ := perform_bags hpure durationNs hrun a hcap hcap'
  refine ⟨.act a, K + queuedBag r, by rw [hM, Multiset.cons_add], ?_, ?_⟩
  · rw [hM', add_assoc, add_comm (Multiset.map _ _), hqueued, ← add_assoc]
    rfl
  · rw [hdelivered, add_right_comm]
    rfl

/-- **One turn** of an ingestor or a worker changes nothing to be done or seen, or does one task. -/
theorem step_simulates {scripts : List (ScriptThread P)} {f : Nat → Event P → List (Event P)}
    (hpure : ∀ i st, scripts[i]? = some st → IsPure st.dispatch.script (f i)) {s : Pipeline P}
    {t : Turn} (ht : t.thread ≠ .metrics) (hrun : s.router.Running) (hcap : s.router.WithinCapacity)
    (hcap' : (step scripts s t).router.WithinCapacity) :
    step scripts s t = s ∨
      (tasks scripts f (wiring s.router)).Step s.pending s.outcomes
        (step scripts s t).pending (step scripts s t).outcomes := by
  have heffect := step_effect scripts s t
  generalize step scripts s t = s' at heffect hcap' ⊢
  cases heffect with
  | idle _ => exact .inl rfl
  | @ingestor j a rest _ hj =>
      obtain ⟨K, hold, hnew⟩ := actBag_set hj
      refine .inr (perform_step (K := actBag s.workers + K
        + (rest : Multiset (Action P)).map .act) hpure t.durationNs hrun a hcap hcap' ?_ ?_
        (triggerBag s.triggers))
      · rw [Pipeline.pending, hold, ← Multiset.cons_coe, Multiset.map_cons,
          Multiset.add_cons, Multiset.add_cons, add_assoc (actBag _)]
      · dsimp only [Pipeline.pending]
        rw [hnew, ← Multiset.coe_add, Multiset.map_add]
        ac_rfl
  | @worker i a rest _ hi =>
      obtain ⟨K, hold, hnew⟩ := actBag_set hi
      refine .inr (perform_step (K := K + actBag s.ingestors
        + (rest : Multiset (Action P)).map .act) hpure t.durationNs hrun a hcap hcap' ?_ ?_
        (triggerBag s.triggers))
      · rw [Pipeline.pending, hold, ← Multiset.cons_coe, Multiset.map_cons]
        simp only [← Multiset.singleton_add]
        ac_rfl
      · dsimp only [Pipeline.pending]
        rw [hnew, ← Multiset.coe_add, Multiset.map_add]
        ac_rfl
  | @trigger i ev _ _ _ hi hwait =>
      obtain ⟨K, hold, hnew⟩ := actBag_set hi
      have hqueue := queuedBag_waitForTrigger hwait
      obtain ⟨q, pos, -, -, -, -, rfl⟩ := waitForTrigger_returned hwait
      refine .inr ⟨.queued i ev, actBag s.workers + actBag s.ingestors
        + queuedBag { s.router with
            readPositions := s.router.readPositions.set i (pos + 1) }, ?_, ?_, ?_⟩
      · rw [Pipeline.pending, hqueue, ← add_assoc, add_comm _ {_}, Multiset.singleton_add]
      · dsimp only [Pipeline.pending]
        rw [hnew, hold]
        show _ = _ + {Task.act (.dispatch i ev)}
        simp only [Multiset.coe_nil, Multiset.map_zero, add_zero, Multiset.coe_singleton,
          Multiset.map_singleton]
        ac_rfl
      · show deliveredBag s.router + triggerBag (s.triggers ++ [(i, ev)])
          = deliveredBag s.router + triggerBag s.triggers + {.triggered i ev}
        rw [triggerBag, List.map_append, ← Multiset.coe_add, ← add_assoc]
        rfl
  | metrics hthread _ => exact absurd hthread ht
  | pack hthread _ _ => exact absurd hthread ht

theorem step_keeps (scripts : List (ScriptThread P)) (s : Pipeline P) (t : Turn)
    (hrun : s.router.Running) :
    wiring (step scripts s t).router = wiring s.router ∧ (step scripts s t).router.Running := by
  have heffect := step_effect scripts s t
  generalize step scripts s t = s' at heffect ⊢
  cases heffect with
  | idle _ => exact ⟨rfl, hrun⟩
  | ingestor _ _ | worker _ _ | metrics _ _ =>
      exact perform_keeps scripts t.durationNs s.router hrun _
  | trigger _ _ hwait =>
      obtain ⟨q, pos, -, -, -, -, rfl⟩ := waitForTrigger_returned hwait
      exact ⟨rfl, List.length_set.trans hrun.positions, hrun.running⟩
  | pack _ _ _ =>
      have hq := quiet_tel s.router
      exact ⟨(hq _).wiring, (hq _).running hrun⟩

/-! ## Runs -/

/-- No queue holds more than its capacity, at the start and after each turn. -/
def NeverOverflows (scripts : List (ScriptThread P)) (s : Pipeline P) (turns : List Turn) : Prop :=
  ∀ pre, pre <+: turns → (run scripts s pre).router.WithinCapacity

instance (scripts : List (ScriptThread P)) (s : Pipeline P) (turns : List Turn) :
    Decidable (NeverOverflows scripts s turns) :=
  decidable_of_iff (∀ pre ∈ turns.inits, (run scripts s pre).router.WithinCapacity) <| by
    simp only [List.mem_inits]
    rfl

theorem NeverOverflows.tail {scripts : List (ScriptThread P)} {s : Pipeline P} {t : Turn}
    {turns : List Turn} (h : NeverOverflows scripts s (t :: turns)) :
    NeverOverflows scripts (step scripts s t) turns :=
  fun pre hpre => h (t :: pre) (List.cons_prefix_cons.mpr ⟨rfl, hpre⟩)

theorem run_steps {scripts : List (ScriptThread P)} {f : Nat → Event P → List (Event P)}
    (hpure : ∀ i st, scripts[i]? = some st → IsPure st.dispatch.script (f i)) (turns : List Turn)
    (hturns : ∀ t ∈ turns, t.thread ≠ .metrics) {s : Pipeline P} (hrun : s.router.Running)
    (hcap : NeverOverflows scripts s turns) :
    (tasks scripts f (wiring s.router)).Steps s.pending s.outcomes
      (run scripts s turns).pending (run scripts s turns).outcomes := by
  induction turns generalizing s with
  | nil => exact .refl _ _
  | cons t turns ih =>
      obtain ⟨ht, hturns⟩ := List.forall_mem_cons.mp hturns
      obtain ⟨hwire, hrun'⟩ := step_keeps scripts s t hrun
      have hnow : s.router.WithinCapacity := hcap [] List.nil_prefix
      have hthen : (step scripts s t).router.WithinCapacity :=
        hcap.tail [] List.nil_prefix
      have hrest := ih hturns hrun' hcap.tail
      rw [hwire] at hrest
      rcases step_simulates hpure ht hrun hnow hthen with hsame | hstep
      · rw [run, List.foldl_cons]
        rw [hsame] at hrest ⊢
        exact hrest
      · exact .head hstep hrest

theorem actBag_of_idle {threads : List (List (Action P))} (h : ∀ as ∈ threads, as = []) :
    actBag threads = 0 := by
  have hnil : threads.flatten = [] := by
    rw [List.flatten_eq_nil_iff]
    exact h
  rw [actBag, hnil]
  rfl

theorem Drained.pending {s : Pipeline P} (h : Drained s) : s.pending = 0 := by
  have hqueues : queuedBag s.router = 0 := by
    refine Finset.sum_eq_zero fun i _ => ?_
    rw [h.queues]
    rfl
  rw [Pipeline.pending, actBag_of_idle h.workers, actBag_of_idle h.ingestors, hqueues]
  rfl

def Outcome.delivery? : Outcome P → Option (Str × Event P)
  | .delivered id ev => some (id, ev)
  | .triggered _ _ => none

def Outcome.trigger? : Outcome P → Option (Nat × Event P)
  | .delivered _ _ => none
  | .triggered i ev => some (i, ev)

/-- The deliveries and the triggers of a state are what it has shown. -/
theorem outcomes_eq_iff {s s' : Pipeline P} :
    s.outcomes = s'.outcomes ↔
      s.delivered.Perm s'.delivered ∧ s.triggers.Perm s'.triggers := by
  have hbag : ∀ s : Pipeline P, s.outcomes
      = ((s.delivered.map fun d => Outcome.delivered d.1 d.2)
          ++ s.triggers.map fun t => Outcome.triggered t.1 t.2 : List (Outcome P)) :=
    fun s => Multiset.coe_add _ _
  have hdel : ∀ (ds : List (Str × Event P)) (ts : List (Nat × Event P)),
      ((ds.map fun d => Outcome.delivered d.1 d.2)
        ++ ts.map fun t => Outcome.triggered t.1 t.2).filterMap Outcome.delivery? = ds := by
    intro ds ts
    rw [List.filterMap_append, List.filterMap_map, List.filterMap_map]
    simp [Function.comp_def, Outcome.delivery?]
  have htrig : ∀ (ds : List (Str × Event P)) (ts : List (Nat × Event P)),
      ((ds.map fun d => Outcome.delivered d.1 d.2)
        ++ ts.map fun t => Outcome.triggered t.1 t.2).filterMap Outcome.trigger? = ts := by
    intro ds ts
    rw [List.filterMap_append, List.filterMap_map, List.filterMap_map]
    simp [Function.comp_def, Outcome.trigger?]
  rw [hbag, hbag, Multiset.coe_eq_coe]
  refine ⟨?_, ?_⟩
  · intro h
    have hd := h.filterMap Outcome.delivery?
    have ht := h.filterMap Outcome.trigger?
    rw [hdel, hdel] at hd
    rw [htrig, htrig] at ht
    exact ⟨hd, ht⟩
  · rintro ⟨hd, ht⟩
    exact (hd.map _).append (ht.map _)

/-- **Scheduling does not change the output.** Two schedules of the ingestors and workers of one
pipeline that finish deliver the same events to every endpoint and hand the same triggers to every
script. -/
theorem drained_runs_agree (scripts : List (ScriptThread P)) (f : Nat → Event P → List (Event P))
    (hpure : ∀ i st, scripts[i]? = some st → IsPure st.dispatch.script (f i)) (r : StreamRouter P)
    (hr : r.Running) (ings : List (Ingestor P)) (turns₁ turns₂ : List Turn)
    (hturns₁ : ∀ t ∈ turns₁, t.thread ≠ .metrics) (hturns₂ : ∀ t ∈ turns₂, t.thread ≠ .metrics)
    (hcap₁ : NeverOverflows scripts (start r ings) turns₁)
    (hcap₂ : NeverOverflows scripts (start r ings) turns₂)
    (hdone₁ : Drained (run scripts (start r ings) turns₁))
    (hdone₂ : Drained (run scripts (start r ings) turns₂)) :
    (run scripts (start r ings) turns₁).delivered.Perm
        (run scripts (start r ings) turns₂).delivered ∧
      (run scripts (start r ings) turns₁).triggers.Perm
        (run scripts (start r ings) turns₂).triggers := by
  have hstart : (start r ings).router.Running := hr
  have hsteps₁ := run_steps hpure turns₁ hturns₁ hstart hcap₁
  have hsteps₂ := run_steps hpure turns₂ hturns₂ hstart hcap₂
  rw [hdone₁.pending] at hsteps₁
  rw [hdone₂.pending] at hsteps₂
  exact outcomes_eq_iff.mp (hsteps₁.unique hsteps₂)

/-- Emits its trigger once more, unless the trigger is such a copy. -/
def again (ev : Event 1) : List (Event 1) :=
  if ev.lineageDepth = 0 then [{ ev with lineageDepth := 1 }] else []

def againEnv : Environment 1 where
  openEndpoint _ := .ok ()
  loadPython _ _ := .error (lit "no module")
  loadWasm _ _ := .ok fun _ input _ => { emitted := again input.triggerEvent }
  loadPlugin path := .ok [{ sequence := if path = lit "i.so" then 1 else 2 }]

/-- A cyclic route: the script's output goes to the stream that triggers it, and out. -/
def againConfig : Config where
  sections := [scriptSection (lit "again") (lit "wasm") (lit "s") (lit "s"),
    routesSection (lit "s") (lit "again, stdout"), ingestorSection (lit "i.so") (lit "s"),
    ingestorSection (lit "j.so") (lit "s")]

def againState : PipelineState 1 :=
  match startPipeline againEnv againConfig with
  | .ok p => p
  | .error _ => { router := {} }

theorem againState_pure (i : Nat) (st : ScriptThread 1) (h : againState.scriptData[i]? = some st) :
    IsPure st.dispatch.script again := by
  obtain rfl := List.mem_singleton.mp (List.mem_of_getElem? h)
  exact ⟨fun _ _ _ _ => rfl, nofun⟩

theorem drained_runs_agree_again :
    let first := turns 4 (.ingestor 0) ++ turns 8 (.worker 0) ++ turns 4 (.ingestor 1)
      ++ turns 8 (.worker 0)
    let second := turns 4 (.ingestor 1) ++ turns 4 (.ingestor 0) ++ turns 16 (.worker 0)
    let s := start againState.router againState.plugins
    (run againState.scriptData s first).delivered.Perm (run againState.scriptData s second).delivered ∧
      (run againState.scriptData s first).triggers.Perm
        (run againState.scriptData s second).triggers :=
  drained_runs_agree againState.scriptData (fun _ => again) againState_pure againState.router
    (startPipeline_started (show startPipeline againEnv againConfig = .ok againState from rfl)).running
    againState.plugins _ _ (by decide) (by decide) (by decide +kernel) (by decide +kernel)
    (by decide +kernel) (by decide +kernel)

end Mawmaw.Server
