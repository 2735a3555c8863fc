import Mawmaw.Core.StreamRouter
import Mawmaw.Lib.Schedule
import Mawmaw.Server.Metrics

/-!
# Routing and packing side by side

Threads that call `route` and `pack_stream_metrics` on one router, lock by lock: a counter is found
and increased under the shared lock, else inserted and increased under the unique lock; a pack
drains the event counts, then the emitted counts, then takes the drops. A thread is the list of the
actions it still has to take.

* `CountAct`, `perform` : one action, and the actions it leads to;
* `CountRun.step`, `CountRun.run` : one turn of one thread, and a schedule of turns;
* `Alone` : a thread's actions without interruption; `route_alone`, `pack_alone` : they are
  `StreamRouter.route` and `packStreamMetrics`.
-/

namespace Mawmaw.Server
open Mawmaw.Lib Mawmaw.Core Mawmaw.Pub

variable {P : Nat}

inductive CountCall (P : Nat)
  | route (ev : Event P)
  | pack (timestampNs : UInt64)

/-- What a thread does next. `insertEvent`, `insertEmitted`: the slow path of a missing counter;
`push`: the check before the `write`; `packEmitted`, `packDrops`: the second and third drain of a
pack, with what it has drained so far. -/
inductive CountAct (P : Nat)
  | call (c : CountCall P)
  | recordEvent (streamId : Str)
  | insertEvent (streamId : Str)
  | push (ev : Event P)
  | recordDrop
  | write (ev : Event P)
  | targets (ev : Event P)
  | target (ev : Event P) (id : Str)
  | publish (ev : Event P) (id : Str)
  | recordEmitted (streamId : Str)
  | insertEmitted (streamId : Str)
  | packEmitted (timestampNs : UInt64) (eventSnap : UMap Str UInt64)
  | packDrops (timestampNs : UInt64) (eventSnap emittedSnap : UMap Str UInt64)

/-- A finished call of `pack_stream_metrics`: what it drained, the snapshot, and what it returned. -/
structure PackCall where
  eventSnap : UMap Str UInt64
  emittedSnap : UMap Str UInt64
  snapshot : StreamSnapshot
  returned : Bool

/-- The shared router, and the finished calls: the streams of `record_event` and of the deliveries
to endpoints, the number of `record_drop`, and the packs. -/
structure CountState (P : Nat) where
  router : StreamRouter P
  recorded : List Str := []
  delivered : List Str := []
  dropped : Nat := 0
  packs : List PackCall := []

/-- The snapshot of what a pack drained. -/
def assemble (timestampNs : UInt64) (eventSnap emittedSnap : UMap Str UInt64) (drops : UInt64) :
    StreamSnapshot where
  timestampNs := timestampNs
  totalEvents := Telemetry.sumCounts eventSnap
  totalEmitted := Telemetry.sumCounts emittedSnap
  drops := drops
  entries := (Telemetry.addCounts (Telemetry.addCounts ∅ eventSnap) emittedSnap).toPairs

namespace CountState

def tel (c : CountState P) : Telemetry := c.router.tel

def setTel (c : CountState P) (tel : Telemetry) : CountState P :=
  { c with router := { c.router with tel } }

@[simp] theorem tel_setTel (c : CountState P) (tel : Telemetry) : (c.setTel tel).tel = tel := rfl

/-- Increases an event counter, and ends the call. -/
def bumpEvent (c : CountState P) (streamId : Str) : CountState P :=
  { c.setTel { c.tel with eventCounts := Telemetry.bump c.tel.eventCounts streamId } with
    recorded := c.recorded ++ [streamId] }

def bumpEmitted (c : CountState P) (streamId : Str) : CountState P :=
  { c.setTel { c.tel with emittedCounts := Telemetry.bump c.tel.emittedCounts streamId } with
    delivered := c.delivered ++ [streamId] }

/-- `endpoint->publish(ev)`, if the endpoint is still there. -/
def publish (c : CountState P) (pub : Publisher P) (ev : Event P) (id : Str) :
    CountState P × List (CountAct P) :=
  match pub.endpoints.lookup id with
  | none => (c, [])
  | some _ =>
    let r := { c.router with publisher := some (pub.publishTo c.tel ev id).1 }
    if pub.telemetry then ({ c with router := r }, [.recordEmitted ev.stream])
    else ({ c with router := r, delivered := c.delivered ++ [ev.stream] }, [])

/-- One action: the shared state after it, and the actions it leads to. -/
def perform (c : CountState P) : CountAct P → CountState P × List (CountAct P)
  | .call (.route ev) =>
    (c, (if c.router.telemetry then [.recordEvent ev.stream] else []) ++ [.push ev, .targets ev])
  | .recordEvent streamId =>
    if !c.tel.enabled || Telemetry.isOwnStream streamId then
      ({ c with recorded := c.recorded ++ [streamId] }, [])
    else
      match c.tel.eventCounts.lookup streamId with
      | some _ => (c.bumpEvent streamId, [])
      | none => (c, [.insertEvent streamId])
  | .insertEvent streamId => (c.bumpEvent streamId, [])
  | .push ev =>
    (c, if (c.router.registry.push ev).dropped then [.recordDrop, .write ev] else [.write ev])
  | .recordDrop => ({ c.setTel c.tel.recordDrop with dropped := c.dropped + 1 }, [])
  | .write ev =>
    ({ c with
        router := { c.router with registry := (c.router.registry.push ev).registry } }, [])
  | .targets ev => (c, (c.router.targets ev).map (.target ev))
  | .target ev id =>
    if (c.router.handlers.lookup id).isNone && c.router.publisher.any (·.hasEndpoint id) then
      (c, [.publish ev id])
    else ({ c with router := c.router.routeTarget ev id }, [])
  | .publish ev id =>
    match c.router.publisher with
    | none => (c, [])
    | some pub => c.publish pub ev id
  | .recordEmitted streamId =>
    if !c.tel.enabled || Telemetry.isOwnStream streamId then
      ({ c with delivered := c.delivered ++ [streamId] }, [])
    else
      match c.tel.emittedCounts.lookup streamId with
      | some _ => (c.bumpEmitted streamId, [])
      | none => (c, [.insertEmitted streamId])
  | .insertEmitted streamId => (c.bumpEmitted streamId, [])
  | .call (.pack timestampNs) =>
    (c.setTel { c.tel with eventCounts := Telemetry.zeroCounts c.tel.eventCounts },
      [.packEmitted timestampNs (Telemetry.takeCounts c.tel.eventCounts)])
  | .packEmitted timestampNs eventSnap =>
    (c.setTel { c.tel with emittedCounts := Telemetry.zeroCounts c.tel.emittedCounts },
      [.packDrops timestampNs eventSnap (Telemetry.takeCounts c.tel.emittedCounts)])
  | .packDrops timestampNs eventSnap emittedSnap =>
    let snapshot := assemble timestampNs eventSnap emittedSnap c.tel.drops
    ({ c.setTel { c.tel with drops := 0 } with
        packs := c.packs ++ [⟨eventSnap, emittedSnap, snapshot, (snapshot.pack P).isSome⟩] }, [])

end CountState

structure CountRun (P : Nat) where
  shared : CountState P
  threads : List (List (CountAct P))

namespace CountRun

/-- Threads on a router, each with the calls it makes one after the other. -/
def start (r : StreamRouter P) (calls : List (List (CountCall P))) : CountRun P where
  shared := { router := r }
  threads := calls.map (·.map .call)

/-- One turn of thread `i`. -/
def step (s : CountRun P) (i : Nat) : CountRun P :=
  match s.threads[i]? with
  | some (a :: rest) =>
    let done := s.shared.perform a
    { shared := done.1, threads := s.threads.set i (done.2 ++ rest) }
  | _ => s

def run (s : CountRun P) (turns : List Nat) : CountRun P := turns.foldl step s

end CountRun

/-! ## A thread without interruption -/

/-- The actions of one thread, done one after the other, take `c` to `c'`. -/
inductive Alone : CountState P → List (CountAct P) → CountState P → Prop
  | nil (c : CountState P) : Alone c [] c
  | step {c c' : CountState P} {a : CountAct P} {rest : List (CountAct P)} :
      Alone (c.perform a).1 ((c.perform a).2 ++ rest) c' → Alone c (a :: rest) c'

namespace Alone
variable {c c' c'' : CountState P} {as bs : List (CountAct P)}

theorem append (h : Alone c as c') (h' : Alone c' bs c'') : Alone c (as ++ bs) c'' := by
  induction h with
  | nil => exact h'
  | step _ ih =>
      have hrest := ih h'
      rw [List.append_assoc] at hrest
      exact .step hrest

/-- An action and all it leads to. -/
theorem leads {a : CountAct P} (h : c.perform a = (c', as)) (has : Alone c' as c'') :
    Alone c [a] c'' := by
  refine .step ?_
  rw [h, List.append_nil]
  exact has

/-- An action that leads to no other. -/
theorem single {a : CountAct P} (h : c.perform a = (c', [])) : Alone c [a] c' :=
  .leads h (.nil c')

/-- Turns of one thread only. -/
theorem run (h : Alone c as c') {s : CountRun P} {i : Nat} {rest : List (CountAct P)}
    (hc : s.shared = c) (hi : s.threads[i]? = some (as ++ rest)) :
    ∃ n, s.run (List.replicate n i) = { shared := c', threads := s.threads.set i rest } := by
  induction h generalizing s with
  | nil c =>
      refine ⟨0, ?_⟩
      obtain ⟨hlt, hget⟩ := List.getElem?_eq_some_iff.mp hi
      rw [List.nil_append] at hget
      rw [← hc, ← hget, List.set_getElem_self]
      rfl
  | @step c c' a as _ ih =>
      obtain ⟨hlt, -⟩ := List.getElem?_eq_some_iff.mp hi
      have hstep : s.step i
          = { shared := (c.perform a).1, threads := s.threads.set i ((c.perform a).2 ++ as ++ rest) } := by
        rw [CountRun.step, hi, ← hc, List.append_assoc]
        rfl
      obtain ⟨n, hn⟩ := ih (s := s.step i) (by rw [hstep])
        (by rw [hstep, List.getElem?_set_self hlt])
      refine ⟨n + 1, ?_⟩
      rw [List.replicate_succ, CountRun.run, List.foldl_cons, ← CountRun.run, hn, hstep,
        List.set_set]

end Alone

theorem recordEvent_alone (c : CountState P) (streamId : Str) :
    ∃ c', Alone c [.recordEvent streamId] c' ∧
      c'.router = { c.router with tel := c.tel.recordEvent streamId } := by
  by_cases hskip : (!c.tel.enabled || Telemetry.isOwnStream streamId) = true
  · refine ⟨_, .single (by rw [CountState.perform, if_pos hskip]), ?_⟩
    rw [Telemetry.recordEvent, if_pos hskip]
    rfl
  · have hbump : (c.bumpEvent streamId).router
        = { c.router with tel := c.tel.recordEvent streamId } := by
      rw [Telemetry.recordEvent, if_neg hskip]
      rfl
    cases hlook : c.tel.eventCounts.lookup streamId with
    | some v => exact ⟨_, .single (by rw [CountState.perform, if_neg hskip, hlook]), hbump⟩
    | none =>
        have hslow : c.perform (.recordEvent streamId) = (c, [.insertEvent streamId]) := by
          rw [CountState.perform, if_neg hskip, hlook]
        exact ⟨_, .leads hslow (.single rfl), hbump⟩

theorem recordEmitted_alone (c : CountState P) (streamId : Str) :
    ∃ c', Alone c [.recordEmitted streamId] c' ∧
      c'.router = { c.router with tel := c.tel.recordEmitted streamId } := by
  by_cases hskip : (!c.tel.enabled || Telemetry.isOwnStream streamId) = true
  · refine ⟨_, .single (by rw [CountState.perform, if_pos hskip]), ?_⟩
    rw [Telemetry.recordEmitted, if_pos hskip]
    rfl
  · have hbump : (c.bumpEmitted streamId).router
        = { c.router with tel := c.tel.recordEmitted streamId } := by
      rw [Telemetry.recordEmitted, if_neg hskip]
      rfl
    cases hlook : c.tel.emittedCounts.lookup streamId with
    | some v => exact ⟨_, .single (by rw [CountState.perform, if_neg hskip, hlook]), hbump⟩
    | none =>
        have hslow : c.perform (.recordEmitted streamId) = (c, [.insertEmitted streamId]) := by
          rw [CountState.perform, if_neg hskip, hlook]
        exact ⟨_, .leads hslow (.single rfl), hbump⟩

theorem push_alone (c : CountState P) (ev : Event P) :
    ∃ c', Alone c [.push ev] c' ∧
      c'.router = { c.router with
        registry := (c.router.registry.push ev).registry
        tel := if (c.router.registry.push ev).dropped then c.tel.recordDrop else c.tel } := by
  cases hdropped : (c.router.registry.push ev).dropped with
  | false =>
      have hpush : c.perform (.push ev) = (c, [.write ev]) := by
        rw [CountState.perform, hdropped]
        rfl
      exact ⟨_, .leads hpush (.single rfl), rfl⟩
  | true =>
      have hpush : c.perform (.push ev) = (c, [.recordDrop, .write ev]) := by
        rw [CountState.perform, hdropped]
        rfl
      exact ⟨_, .leads hpush (.step (.single rfl)), rfl⟩

theorem publish_alone (c : CountState P) {pub : Publisher P} (hpub : c.router.publisher = some pub)
    (ev : Event P) (id : Str) :
    ∃ c', Alone c [.publish ev id] c' ∧
      c'.router = { c.router with
        publisher := some (pub.publishTo c.tel ev id).1
        tel := (pub.publishTo c.tel ev id).2 } := by
  have hpublish : c.perform (.publish ev id) = c.publish pub ev id := by
    rw [CountState.perform, hpub]
  cases hep : pub.endpoints.lookup id with
  | none =>
      rw [CountState.publish, hep] at hpublish
      refine ⟨c, .single hpublish, ?_⟩
      rw [Publisher.publishTo, hep]
      simp [CountState.tel, ← hpub]
  | some ep =>
      rw [CountState.publish, hep] at hpublish
      cases htel : pub.telemetry with
      | false =>
          simp only [htel, Bool.false_eq_true, if_false] at hpublish
          refine ⟨_, .single hpublish, ?_⟩
          simp [Publisher.publishTo, hep, htel, CountState.tel]
      | true =>
          simp only [htel, if_true] at hpublish
          obtain ⟨c', hrun, hrouter⟩ := recordEmitted_alone
            { c with
              router := { c.router with publisher := some (pub.publishTo c.tel ev id).1 } } ev.stream
          refine ⟨c', .leads hpublish hrun, ?_⟩
          rw [hrouter]
          simp [Publisher.publishTo, hep, htel, CountState.tel]

theorem target_alone (c : CountState P) (ev : Event P) (id : Str) :
    ∃ c', Alone c [.target ev id] c' ∧ c'.router = c.router.routeTarget ev id := by
  by_cases hsplit : ((c.router.handlers.lookup id).isNone &&
      c.router.publisher.any (·.hasEndpoint id)) = true
  · rw [Bool.and_eq_true, Option.isNone_iff_eq_none] at hsplit
    obtain ⟨hhandler, hany⟩ := hsplit
    cases hpub : c.router.publisher with
    | none =>
        rw [hpub] at hany
        cases hany
    | some pub =>
        have hep : pub.hasEndpoint id = true := by
          rw [hpub] at hany
          exact hany
        have htarget : c.perform (.target ev id) = (c, [.publish ev id]) := by
          rw [CountState.perform, if_pos]
          simp [hhandler, hpub, hep]
        obtain ⟨c', hrun, hrouter⟩ := publish_alone c hpub ev id
        refine ⟨c', .leads htarget hrun, ?_⟩
        rw [hrouter, StreamRouter.routeTarget, hhandler, hpub]
        simp [hep, CountState.tel]
  · exact ⟨_, .single (by rw [CountState.perform, if_neg hsplit]), rfl⟩

theorem targets_alone (ev : Event P) (ids : List Str) (c : CountState P) :
    ∃ c', Alone c (ids.map (.target ev)) c' ∧
      c'.router = ids.foldl (fun r id => r.routeTarget ev id) c.router := by
  induction ids generalizing c with
  | nil => exact ⟨c, .nil c, rfl⟩
  | cons id ids ih =>
      obtain ⟨c₁, hfirst, hrouter₁⟩ := target_alone c ev id
      obtain ⟨c₂, hrest, hrouter₂⟩ := ih c₁
      refine ⟨c₂, hfirst.append hrest, ?_⟩
      rw [hrouter₂, hrouter₁, List.foldl_cons]

/-- A call of `route` that nobody interrupts is `StreamRouter.route`. -/
theorem route_alone (c : CountState P) (ev : Event P) :
    ∃ c', Alone c [.call (.route ev)] c' ∧ c'.router = c.router.route ev := by
  have hrecord : ∃ c₁, Alone c (if c.router.telemetry then [.recordEvent ev.stream] else []) c₁ ∧
      c₁.router = { c.router with
        tel := if c.router.telemetry then c.tel.recordEvent ev.stream else c.tel } := by
    cases c.router.telemetry with
    | false => exact ⟨c, .nil c, rfl⟩
    | true => exact recordEvent_alone c ev.stream
  obtain ⟨c₁, hfirst, hrouter₁⟩ := hrecord
  obtain ⟨c₂, hpush, hrouter₂⟩ := push_alone c₁ ev
  obtain ⟨c₃, htargets, hrouter₃⟩ := targets_alone ev (c₂.router.targets ev) c₂
  have hlast : Alone c₂ [.targets ev] c₃ := .leads rfl htargets
  refine ⟨c₃, .leads rfl (hfirst.append (hpush.append hlast)), ?_⟩
  have hbegin : c₂.router = c.router.routeBegin ev := by
    rw [hrouter₂, CountState.tel, hrouter₁]
    rfl
  rw [hrouter₃, hbegin]
  rfl

/-- A call of `pack_stream_metrics` that nobody interrupts. -/
theorem pack_alone (c : CountState P) (timestampNs : UInt64) :
    ∃ c' p, Alone c [.call (.pack timestampNs)] c' ∧ c'.packs = c.packs ++ [p] ∧
      p.snapshot = c.tel.streamSnapshot timestampNs ∧
      p.returned = (c.tel.packStreamMetrics P timestampNs).1.isSome ∧
      c'.router = { c.router with tel := (c.tel.packStreamMetrics P timestampNs).2 } :=
  ⟨_, _, .leads rfl (.leads rfl (.single rfl)), rfl, rfl, rfl, rfl⟩

end Mawmaw.Server
