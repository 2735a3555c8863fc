import Mawmaw.Server.Conservation

/-!
# The metrics thread

`Telemetry::emit_metrics` beside the threads that route events and call scripts, lock by lock as in
`Counting`: it packs, routes the chunks to the end of the list, packs the script statistics, routes
those, and sleeps again.

* `MetricsRun.emitMetrics` : one turn of the metrics thread; `MetricsRun.step` : one turn of any;
* `Period` : what was counted between the drains of two packs;
* `CountAct.Routes` : the actions of threads that only route;
* `Holding` : the counters hold what was counted since they were drained; `Tallied` : and a pack
  under way has drained its period; `Tallied.step`.
-/

namespace Mawmaw.Server
open Mawmaw.Lib Mawmaw.Core Mawmaw.Pub

variable {P : Nat}

/-! ## The loop -/

/-- Where the thread is in its loop, with the events of the round it has still to route. -/
inductive MetricsPhase (P : Nat)
  | asleep
  | packing (now : UInt64)
  | streams (now : UInt64) (rest : List (Event P))
  | scripts (rest : List (Event P))

/-- What lies between two drains: the streams of `record_event` and of the deliveries, and the
number of drops. -/
structure Period where
  timestampNs : UInt64 := 0
  recorded : List Str := []
  delivered : List Str := []
  dropped : Nat := 0

/-- The lengths of the logs at the last drains. -/
structure Drains where
  recorded : Nat := 0
  delivered : Nat := 0
  dropped : Nat := 0

/-- The shared router, the other threads, the metrics thread with the call it is in, and for the
record: the last drains, the period of the pack under way, the last periods reported, and the
script calls since the statistics were last packed. -/
structure MetricsRun (P : Nat) where
  shared : CountState P
  threads : List (List (CountAct P))
  doing : List (CountAct P) := []
  phase : MetricsPhase P := .asleep
  drains : Drains := {}
  draft : Period := {}
  told : Option Period := none
  calls : List (Str × UInt64) := []
  toldCalls : Option (UInt64 × List (Str × UInt64)) := none

namespace MetricsRun

/-- Notes what a drain drains. -/
def note (s : MetricsRun P) : CountAct P → MetricsRun P
  | .call (.pack now) =>
    { s with
      draft := { timestampNs := now, recorded := s.shared.recorded.drop s.drains.recorded }
      drains := { s.drains with recorded := s.shared.recorded.length } }
  | .packEmitted .. =>
    { s with
      draft := { s.draft with delivered := s.shared.delivered.drop s.drains.delivered }
      drains := { s.drains with delivered := s.shared.delivered.length } }
  | .packDrops .. =>
    { s with
      draft := { s.draft with dropped := s.shared.dropped - s.drains.dropped }
      drains := { s.drains with dropped := s.shared.dropped } }
  | _ => s

/-- The next action of the call the metrics thread is in. -/
def proceed (s : MetricsRun P) (a : CountAct P) (rest : List (CountAct P)) : MetricsRun P :=
  let done := s.shared.perform a
  { s.note a with shared := done.1, doing := done.2 ++ rest }

/-- One turn of the metrics thread, which reads `now` when it wakes up. -/
def emitMetrics (s : MetricsRun P) (now : UInt64) : MetricsRun P :=
  match s.doing with
  | a :: rest => s.proceed a rest
  | [] =>
    match s.phase with
    | .asleep => { s with phase := .packing now, doing := [.call (.pack now)] }
    | .packing now =>
      match s.shared.packs.getLast? with
      | none => s
      | some p =>
        { s with
          phase := .streams now (metricsEvents P now streamsSchema ((p.snapshot.pack P).getD []))
          told := if p.returned then some s.draft else s.told }
    | .streams now (ev :: rest) => { s with phase := .streams now rest, doing := [.call (.route ev)] }
    | .streams now [] =>
      let packed := s.shared.tel.packScriptMetrics P now now
      { s with
        shared := s.shared.setTel packed.2
        phase := .scripts (metricsEvents P now scriptsSchema (packed.1.getD []))
        calls := []
        toldCalls := if packed.1.isSome then some (now, s.calls) else s.toldCalls }
    | .scripts (ev :: rest) => { s with phase := .scripts rest, doing := [.call (.route ev)] }
    | .scripts [] => { s with phase := .asleep }

/-- One action of another thread. -/
def other (s : MetricsRun P) (i : Nat) : MetricsRun P :=
  match s.threads[i]? with
  | some (a :: rest) =>
    let done := s.shared.perform a
    { s with shared := done.1, threads := s.threads.set i (done.2 ++ rest) }
  | _ => s

/-- A worker's `record_script_invocation`. -/
def invoked (s : MetricsRun P) (scriptId : Str) (durationNs : UInt64) : MetricsRun P :=
  { s with
    shared := s.shared.setTel (s.shared.tel.recordScriptInvocation scriptId durationNs)
    calls := s.calls ++ [(scriptId, durationNs)] }

end MetricsRun

inductive MetricsTurn
  | other (i : Nat)
  | invoked (scriptId : Str) (durationNs : UInt64)
  | metrics (now : UInt64)

namespace MetricsRun

def step (s : MetricsRun P) : MetricsTurn → MetricsRun P
  | .other i => s.other i
  | .invoked scriptId durationNs => s.invoked scriptId durationNs
  | .metrics now => s.emitMetrics now

def run (s : MetricsRun P) (turns : List MetricsTurn) : MetricsRun P := turns.foldl step s

/-- The metrics thread is between two rounds. -/
def asleep (s : MetricsRun P) : Bool :=
  match s.phase with
  | .asleep => true
  | _ => false

/-- The metrics thread asleep, beside threads that each route their events. -/
def start (r : StreamRouter P) (routes : List (List (Event P))) : MetricsRun P where
  shared := { router := r }
  threads := routes.map (·.map fun ev => .call (.route ev))

/-- A call's next action leaves the other threads, the round and its reports as they are. -/
theorem proceed_frame (s : MetricsRun P) (a : CountAct P) (rest : List (CountAct P)) :
    (s.proceed a rest).threads = s.threads ∧ (s.proceed a rest).phase = s.phase ∧
      (s.proceed a rest).told = s.told ∧ (s.proceed a rest).toldCalls = s.toldCalls := by
  cases a with
  | call call => cases call <;> exact ⟨rfl, rfl, rfl, rfl⟩
  | recordEvent _ | insertEvent _ | push _ | recordDrop | write _ | targets _ | target _ _
  | publish _ _ | recordEmitted _ | insertEmitted _ | packEmitted _ _ | packDrops _ _ _ =>
      exact ⟨rfl, rfl, rfl, rfl⟩

end MetricsRun

/-! ## Threads that only route -/

/-- An action of `route` with events that meet `p`. -/
def CountAct.Routes (p : Event P → Prop) : CountAct P → Prop
  | .call (.route ev) | .push ev | .write ev | .targets ev | .target ev _ | .publish ev _ => p ev
  | .call (.pack _) | .packEmitted .. | .packDrops .. => False
  | .recordEvent _ | .insertEvent _ | .recordDrop | .recordEmitted _ | .insertEmitted _ => True

namespace CountState
variable {c c' : CountState P} {a : CountAct P} {as : List (CountAct P)} {p : Event P → Prop}

theorem perform_routes (ha : a.Routes p) : ∀ b ∈ (c.perform a).2, b.Routes p := by
  intro b hb
  cases a with
  | call call =>
      cases call with
      | route event =>
          rw [perform] at hb
          cases htel : c.router.telemetry <;> simp [htel] at hb
          · rcases hb with rfl | rfl <;> exact ha
          · rcases hb with rfl | rfl | rfl
            · trivial
            · exact ha
            · exact ha
      | pack timestampNs => exact ha.elim
  | recordEvent sid =>
      simp only [perform] at hb
      split at hb
      · cases hb
      · split at hb
        · cases hb
        · obtain rfl := List.mem_singleton.mp hb
          trivial
  | push event =>
      rw [perform] at hb
      cases hdropped : (c.router.registry.push event).dropped <;> simp [hdropped] at hb
      · obtain rfl := hb
        exact ha
      · rcases hb with rfl | rfl
        · trivial
        · exact ha
  | targets event =>
      obtain ⟨id, -, rfl⟩ := List.mem_map.mp hb
      exact ha
  | target event id =>
      rw [perform] at hb
      split at hb
      · obtain rfl := List.mem_singleton.mp hb
        exact ha
      · cases hb
  | publish event id =>
      simp only [perform] at hb
      split at hb
      · cases hb
      · simp only [publish] at hb
        split at hb
        · cases hb
        · split at hb
          · obtain rfl := List.mem_singleton.mp hb
            trivial
          · cases hb
  | recordEmitted sid =>
      simp only [perform] at hb
      split at hb
      · cases hb
      · split at hb
        · cases hb
        · obtain rfl := List.mem_singleton.mp hb
          trivial
  | insertEvent _ | recordDrop | write _ | insertEmitted _ => cases hb
  | packEmitted _ _ | packDrops _ _ _ => exact ha.elim

/-! ## What the counters hold -/

/-- The counters hold what was counted since they were drained. -/
structure Holding (d : Drains) (c : CountState P) : Prop where
  recorded_le : d.recorded ≤ c.recorded.length
  delivered_le : d.delivered ≤ c.delivered.length
  dropped_le : d.dropped ≤ c.dropped
  events : ∀ μ : Measure, μ.of c.tel.eventCounts = μ.credit (c.recorded.drop d.recorded)
  emitted : ∀ μ : Measure, μ.of c.tel.emittedCounts = μ.credit (c.delivered.drop d.delivered)
  drops : c.tel.drops = UInt64.ofNat (c.dropped - d.dropped)

theorem length_le_append {n : Nat} {l : List Str} (h : n ≤ l.length) (sid : Str) :
    n ≤ (l ++ [sid]).length := by
  rw [List.length_append]
  omega

theorem Effect.holding {d : Drains} (h : Effect c a c' as) (ha : a.Routes p) (hc : Holding d c) :
    Holding d c' := by
  cases h with
  | quiet hmid hsame has =>
      refine ⟨?_, ?_, ?_, fun μ => ?_, fun μ => ?_, ?_⟩
      · rw [hsame.recorded]
        exact hc.recorded_le
      · rw [hsame.delivered]
        exact hc.delivered_le
      · rw [hsame.dropped]
        exact hc.dropped_le
      · rw [hsame.tel, hsame.recorded]
        exact hc.events μ
      · rw [hsame.tel, hsame.delivered]
        exact hc.emitted μ
      · rw [hsame.tel, hsame.dropped]
        exact hc.drops
  | @recordOwn _ hmid sid hsid =>
      refine ⟨length_le_append hc.recorded_le sid, hc.delivered_le, hc.dropped_le, fun μ => ?_,
        hc.emitted, hc.drops⟩
      rw [List.drop_append_of_le_length hc.recorded_le, μ.credit_append_own _ hsid]
      exact hc.events μ
  | @deliverOwn _ hmid sid hsid =>
      refine ⟨hc.recorded_le, length_le_append hc.delivered_le sid, hc.dropped_le, hc.events,
        fun μ => ?_, hc.drops⟩
      rw [List.drop_append_of_le_length hc.delivered_le, μ.credit_append_own _ hsid]
      exact hc.emitted μ
  | @bumpEvent _ hmid sid hsid =>
      refine ⟨length_le_append hc.recorded_le sid, hc.delivered_le, hc.dropped_le, fun μ => ?_,
        hc.emitted, hc.drops⟩
      have hbump : (c.bumpEvent sid).recorded = c.recorded ++ [sid] := rfl
      rw [hbump, List.drop_append_of_le_length hc.recorded_le, μ.credit_append _ hsid,
        ← hc.events μ]
      exact μ.bump _ _
  | @bumpEmitted _ hmid sid hsid =>
      refine ⟨hc.recorded_le, length_le_append hc.delivered_le sid, hc.dropped_le, hc.events,
        fun μ => ?_, hc.drops⟩
      have hbump : (c.bumpEmitted sid).delivered = c.delivered ++ [sid] := rfl
      rw [hbump, List.drop_append_of_le_length hc.delivered_le, μ.credit_append _ hsid,
        ← hc.emitted μ]
      exact μ.bump _ _
  | drop =>
      have hle := hc.dropped_le
      refine ⟨hc.recorded_le, hc.delivered_le, Nat.le_succ_of_le hle, hc.events, hc.emitted, ?_⟩
      show c.tel.drops + 1 = UInt64.ofNat (c.dropped + 1 - d.dropped)
      rw [hc.drops, Nat.sub_add_comm hle, UInt64.ofNat_add]
      rfl
  | packEvents _ | packEmitted _ _ | packDrops _ _ _ _ _ => exact ha.elim

/-- Routing makes no pack. -/
theorem Effect.packs_of_routes (h : Effect c a c' as) (ha : a.Routes p) : c'.packs = c.packs := by
  cases h with
  | quiet _ hsame _ => exact hsame.packs
  | recordOwn _ _ | deliverOwn _ _ | bumpEvent _ _ | bumpEmitted _ _ | drop => rfl
  | packEvents _ | packEmitted _ _ | packDrops _ _ _ _ _ => exact ha.elim

/-- The statistics of scripts are none of these actions' business. -/
theorem Effect.scriptStats (h : Effect c a c' as) : c'.tel.scriptStats = c.tel.scriptStats := by
  cases h with
  | quiet hmid hsame has => rw [hsame.tel]
  | recordOwn _ _ | deliverOwn _ _ | bumpEvent _ _ | bumpEmitted _ _ | drop | packEvents _
  | packEmitted _ _ | packDrops _ _ _ _ _ => rfl

/-- The counters of another telemetry that holds the same. -/
theorem Holding.setTel {d : Drains} (h : Holding d c) {tel : Telemetry}
    (hevents : tel.eventCounts = c.tel.eventCounts)
    (hemitted : tel.emittedCounts = c.tel.emittedCounts) (hdrops : tel.drops = c.tel.drops) :
    Holding d (c.setTel tel) where
  recorded_le := h.recorded_le
  delivered_le := h.delivered_le
  dropped_le := h.dropped_le
  events μ := (congrArg μ.of hevents).trans (h.events μ)
  emitted μ := (congrArg μ.of hemitted).trans (h.emitted μ)
  drops := hdrops.trans h.drops

end CountState

/-! ## Script calls -/

/-- The durations of the calls of a script. -/
def callsOf (calls : List (Str × UInt64)) (scriptId : Str) : List UInt64 :=
  (calls.filter fun call => call.1 = scriptId).map (·.2)

/-- The number, the sum, the least and the greatest of some durations. -/
def statsOf (durations : List UInt64) : ScriptStats where
  count := UInt64.ofNat durations.length
  totalLatencyNs := durations.sum
  minLatencyNs := durations.foldl (fun least d => if d < least then d else least) uint64Max
  maxLatencyNs := durations.foldl (fun greatest d => if d > greatest then d else greatest) 0

theorem statsOf_concat (durations : List UInt64) (d : UInt64) :
    statsOf (durations ++ [d]) =
      { count := (statsOf durations).count + 1
        totalLatencyNs := (statsOf durations).totalLatencyNs + d
        minLatencyNs := if d < (statsOf durations).minLatencyNs then d
          else (statsOf durations).minLatencyNs
        maxLatencyNs := if d > (statsOf durations).maxLatencyNs then d
          else (statsOf durations).maxLatencyNs } := by
  unfold statsOf
  simp only [List.foldl_append, List.foldl_cons, List.foldl_nil, List.length_append,
    List.length_singleton, UInt64.ofNat_add, List.sum_append, List.sum_singleton]
  rfl

/-- The statistics are those of the calls. -/
def StatsHold (tel : Telemetry) (calls : List (Str × UInt64)) : Prop :=
  ∀ scriptId st, tel.scriptStats.lookup scriptId = some st → st = statsOf (callsOf calls scriptId)

theorem StatsHold.invoked {tel : Telemetry} {calls : List (Str × UInt64)}
    (h : StatsHold tel calls) (henabled : tel.enabled = true) (scriptId : Str)
    (durationNs : UInt64) :
    StatsHold (tel.recordScriptInvocation scriptId durationNs) (calls ++ [(scriptId, durationNs)]) := by
  have hothers : ∀ id, id ≠ scriptId →
      callsOf (calls ++ [(scriptId, durationNs)]) id = callsOf calls id := by
    intro id hid
    rw [callsOf, List.filter_append, List.filter_cons_of_neg (by simpa using Ne.symm hid),
      List.filter_nil, List.append_nil, callsOf]
  have hown : callsOf (calls ++ [(scriptId, durationNs)]) scriptId
      = callsOf calls scriptId ++ [durationNs] := by
    rw [callsOf, List.filter_append, List.filter_cons_of_pos (by simp), List.filter_nil,
      List.map_append, List.map_singleton, callsOf]
  intro id st hst
  rw [Telemetry.recordScriptInvocation, henabled] at hst
  cases hlook : tel.scriptStats.lookup scriptId with
  | none =>
      simp only [hlook, Bool.not_true, Bool.false_eq_true, if_false] at hst
      have hid : id ≠ scriptId := by
        rintro rfl
        rw [hlook] at hst
        cases hst
      rw [hothers id hid]
      exact h id st hst
  | some old =>
      simp only [hlook, Bool.not_true, Bool.false_eq_true, if_false] at hst
      by_cases hid : id = scriptId
      · subst hid
        rw [AList.lookup_insert] at hst
        rw [← Option.some.inj hst, hown, statsOf_concat, ← h id old hlook]
      · rw [AList.lookup_insert_ne hid] at hst
        rw [hothers id hid]
        exact h id st hst

/-- Packed, they start again. -/
theorem statsHold_packed (P : Nat) (tel : Telemetry) (timestampNs now : UInt64) :
    StatsHold (tel.packScriptMetrics P timestampNs now).2 [] := by
  intro id st hst
  rw [Telemetry.packScriptMetrics, UMap.lookup_collect] at hst
  obtain ⟨_, -, hst⟩ := Option.bind_eq_some_iff.mp hst
  rw [← Option.some.inj hst]
  rfl

/-! ## The metrics thread's own actions -/

/-- A pack that drained the period `q`. -/
structure PackedOf (P : Nat) (q : Period) (p : PackCall) : Prop where
  events : ∀ μ : Measure, μ.of p.eventSnap = μ.credit q.recorded
  emitted : ∀ μ : Measure, μ.of p.emittedSnap = μ.credit q.delivered
  snapshot : p.snapshot
    = assemble q.timestampNs p.eventSnap p.emittedSnap (UInt64.ofNat q.dropped)
  returned : p.returned = (p.snapshot.pack P).isSome

/-- A pack as far as it has got: what it has drained is the period so far. -/
inductive Packing (q : Period) (now : UInt64) (packs : List PackCall) : List (CountAct P) → Prop
  | called : Packing q now packs [.call (.pack now)]
  | events {eventSnap : UMap Str UInt64} (hnow : q.timestampNs = now)
      (hevents : ∀ μ : Measure, μ.of eventSnap = μ.credit q.recorded) :
      Packing q now packs [.packEmitted now eventSnap]
  | emitted {eventSnap emittedSnap : UMap Str UInt64} (hnow : q.timestampNs = now)
      (hevents : ∀ μ : Measure, μ.of eventSnap = μ.credit q.recorded)
      (hemitted : ∀ μ : Measure, μ.of emittedSnap = μ.credit q.delivered) :
      Packing q now packs [.packDrops now eventSnap emittedSnap]
  | returned {p : PackCall} (hnow : q.timestampNs = now) (hlast : packs.getLast? = some p)
      (hp : PackedOf P q p) : Packing q now packs []

namespace MetricsRun

/-- What the metrics thread may be doing. -/
def Doing (s : MetricsRun P) : Prop :=
  match s.phase with
  | .asleep => s.doing = []
  | .packing now => Packing s.draft now s.shared.packs s.doing
  | .streams _ _ | .scripts _ => ∀ a ∈ s.doing, a.Routes fun _ => True

/-- **The counting invariant.** -/
structure Tallied (p : Event P → Prop) (s : MetricsRun P) : Prop where
  attached : Attached s.shared.router
  counted : ∀ as ∈ s.doing :: s.threads, ∀ a ∈ as, a.Counted
  threads : ∀ as ∈ s.threads, ∀ a ∈ as, a.Routes p
  holding : CountState.Holding s.drains s.shared
  stats : StatsHold s.shared.tel s.calls
  doing : s.Doing

variable {p : Event P → Prop} {s : MetricsRun P}

/-- The actions of the threads after one of thread `i`. -/
theorem forall_set {Q : CountAct P → Prop} {threads : List (List (CountAct P))} {i : Nat}
    {a : CountAct P} {rest as : List (CountAct P)} (hi : threads[i]? = some (a :: rest))
    (h : ∀ bs ∈ threads, ∀ b ∈ bs, Q b) (has : ∀ b ∈ as, Q b) :
    ∀ bs ∈ threads.set i (as ++ rest), ∀ b ∈ bs, Q b := by
  intro bs hbs b hb
  rcases List.mem_or_eq_of_mem_set hbs with hbs | rfl
  · exact h bs hbs b hb
  · rcases List.mem_append.mp hb with hb | hb
    · exact has b hb
    · exact h _ (List.mem_of_getElem? hi) b (List.mem_cons_of_mem a hb)

theorem Tallied.other (h : Tallied p s) (i : Nat) : Tallied p (s.other i) := by
  unfold MetricsRun.other
  split
  · rename_i a rest hi
    have hmem : a :: rest ∈ s.threads := List.mem_of_getElem? hi
    have ha := h.counted _ (List.mem_cons_of_mem _ hmem) a List.mem_cons_self
    have hroutes := h.threads _ hmem a List.mem_cons_self
    have heffect := CountState.perform_effect h.attached ha
    refine ⟨heffect.attached h.attached, ?_, ?_, heffect.holding hroutes h.holding, ?_, ?_⟩
    · refine List.forall_mem_cons.mpr ⟨(List.forall_mem_cons.mp h.counted).1, ?_⟩
      exact forall_set hi (List.forall_mem_cons.mp h.counted).2 heffect.counted
    · exact forall_set hi h.threads (CountState.perform_routes hroutes)
    · intro id st hst
      rw [heffect.scriptStats] at hst
      exact h.stats id st hst
    · have hdoing := h.doing
      unfold Doing at hdoing ⊢
      rw [heffect.packs_of_routes hroutes]
      exact hdoing
  · exact h

theorem recordScriptInvocation_frame (tel : Telemetry) (scriptId : Str) (durationNs : UInt64) :
    (tel.recordScriptInvocation scriptId durationNs).enabled = tel.enabled ∧
      (tel.recordScriptInvocation scriptId durationNs).eventCounts = tel.eventCounts ∧
      (tel.recordScriptInvocation scriptId durationNs).emittedCounts = tel.emittedCounts ∧
      (tel.recordScriptInvocation scriptId durationNs).drops = tel.drops := by
  unfold Telemetry.recordScriptInvocation
  split
  · exact ⟨rfl, rfl, rfl, rfl⟩
  · split <;> exact ⟨rfl, rfl, rfl, rfl⟩

theorem Tallied.invoked (h : Tallied p s) (scriptId : Str) (durationNs : UInt64) :
    Tallied p (s.invoked scriptId durationNs) := by
  obtain ⟨henabled, hevents, hemitted, hdrops⟩ :=
    recordScriptInvocation_frame s.shared.tel scriptId durationNs
  exact
    { attached := ⟨henabled.trans h.attached.enabled, h.attached.publisher⟩
      counted := h.counted
      threads := h.threads
      holding := h.holding.setTel hevents hemitted hdrops
      stats := h.stats.invoked h.attached.enabled scriptId durationNs
      doing := h.doing }

theorem note_of_routes {q : Event P → Prop} {a : CountAct P} (ha : a.Routes q) : s.note a = s := by
  cases a with
  | call call =>
      cases call with
      | route event => rfl
      | pack timestampNs => exact ha.elim
  | packEmitted _ _ | packDrops _ _ _ => exact ha.elim
  | recordEvent _ | insertEvent _ | push _ | recordDrop | write _ | targets _ | target _ _
  | publish _ _ | recordEmitted _ | insertEmitted _ => rfl

/-- An action of a call of `route`. -/
theorem Tallied.proceed_routes (h : Tallied p s) {a : CountAct P} {rest : List (CountAct P)}
    (hdoing : s.doing = a :: rest)
    (hphase : (∃ now evs, s.phase = .streams now evs) ∨ ∃ evs, s.phase = .scripts evs) :
    Tallied p (s.proceed a rest) := by
  have hall : ∀ b ∈ s.doing, b.Routes fun _ => True := by
    have hd := h.doing
    unfold Doing at hd
    rcases hphase with ⟨now, evs, hphase⟩ | ⟨evs, hphase⟩ <;> rw [hphase] at hd <;> exact hd
  have hcounted := h.counted
  rw [hdoing] at hall hcounted
  obtain ⟨ha, hrest⟩ := List.forall_mem_cons.mp hall
  obtain ⟨hown, hothers⟩ := List.forall_mem_cons.mp hcounted
  have heffect := CountState.perform_effect h.attached (hown a List.mem_cons_self)
  rw [MetricsRun.proceed, note_of_routes ha]
  refine
    { attached := heffect.attached h.attached
      counted := List.forall_mem_cons.mpr ⟨?_, hothers⟩
      threads := h.threads
      holding := heffect.holding ha h.holding
      stats := fun id st hst => h.stats id st (heffect.scriptStats ▸ hst)
      doing := ?_ }
  · intro b hb
    rcases List.mem_append.mp hb with hb | hb
    · exact heffect.counted b hb
    · exact hown b (List.mem_cons_of_mem a hb)
  · have hnext : ∀ b ∈ (s.shared.perform a).2 ++ rest, b.Routes fun _ => True := by
      intro b hb
      rcases List.mem_append.mp hb with hb | hb
      · exact CountState.perform_routes ha b hb
      · exact hrest b hb
    unfold Doing
    rcases hphase with ⟨now, evs, hphase⟩ | ⟨evs, hphase⟩ <;> rw [hphase] <;> exact hnext

/-- An action of `pack_stream_metrics`. -/
theorem Tallied.proceed_packing (h : Tallied p s) {a : CountAct P} {rest : List (CountAct P)}
    (hdoing : s.doing = a :: rest) {now : UInt64} (hphase : s.phase = .packing now) :
    Tallied p (s.proceed a rest) := by
  have hpacking : Packing s.draft now s.shared.packs (a :: rest) := by
    have hd := h.doing
    rw [Doing, hphase, hdoing] at hd
    exact hd
  have hothers := (List.forall_mem_cons.mp h.counted).2
  have hnil (n : Nat) (l : List Str) (hn : l.length = n) (μ : Measure) :
      μ.credit (l.drop n) = 0 := by
    rw [List.drop_eq_nil_of_le hn.le]
    rfl
  cases hpacking with
  | called =>
      exact
        { attached := ⟨h.attached.enabled, h.attached.publisher⟩
          counted := List.forall_mem_cons.mpr ⟨List.forall_mem_singleton.mpr trivial, hothers⟩
          threads := h.threads
          holding :=
            { recorded_le := Nat.le_refl _
              delivered_le := h.holding.delivered_le
              dropped_le := h.holding.dropped_le
              events := fun μ => (μ.zero _).trans (hnil _ _ rfl μ).symm
              emitted := h.holding.emitted
              drops := h.holding.drops }
          stats := h.stats
          doing := by
            rw [Doing]
            simp only [MetricsRun.proceed, note, hphase]
            exact .events rfl fun μ => (μ.take _).trans (h.holding.events μ) }
  | events hnow hevents =>
      exact
        { attached := ⟨h.attached.enabled, h.attached.publisher⟩
          counted := List.forall_mem_cons.mpr ⟨List.forall_mem_singleton.mpr trivial, hothers⟩
          threads := h.threads
          holding :=
            { recorded_le := h.holding.recorded_le
              delivered_le := Nat.le_refl _
              dropped_le := h.holding.dropped_le
              events := h.holding.events
              emitted := fun μ => (μ.zero _).trans (hnil _ _ rfl μ).symm
              drops := h.holding.drops }
          stats := h.stats
          doing := by
            rw [Doing]
            simp only [MetricsRun.proceed, note, hphase]
            exact .emitted hnow hevents fun μ => (μ.take _).trans (h.holding.emitted μ) }
  | emitted hnow hevents hemitted =>
      exact
        { attached := ⟨h.attached.enabled, h.attached.publisher⟩
          counted := List.forall_mem_cons.mpr ⟨List.forall_mem_nil _, hothers⟩
          threads := h.threads
          holding :=
            { recorded_le := h.holding.recorded_le
              delivered_le := h.holding.delivered_le
              dropped_le := Nat.le_refl _
              events := h.holding.events
              emitted := h.holding.emitted
              drops := by
                show (0 : UInt64) = UInt64.ofNat (s.shared.dropped - s.shared.dropped)
                rw [Nat.sub_self]
                rfl }
          stats := h.stats
          doing := by
            rw [Doing]
            simp only [MetricsRun.proceed, note, hphase]
            refine .returned hnow List.getLast?_concat ⟨hevents, hemitted, ?_, rfl⟩
            rw [← h.holding.drops, ← hnow] }

theorem Tallied.emitMetrics (h : Tallied p s) (now : UInt64) : Tallied p (s.emitMetrics now) := by
  unfold MetricsRun.emitMetrics
  cases hdoing : s.doing with
  | cons a rest =>
      cases hphase : s.phase with
      | asleep =>
          have hd := h.doing
          rw [Doing, hphase, hdoing] at hd
          cases hd
      | packing stamp => exact h.proceed_packing hdoing hphase
      | streams stamp evs => exact h.proceed_routes hdoing (.inl ⟨stamp, evs, hphase⟩)
      | scripts evs => exact h.proceed_routes hdoing (.inr ⟨evs, hphase⟩)
  | nil =>
      have hothers := (List.forall_mem_cons.mp h.counted).2
      have hcounted (as : List (CountAct P)) (has : ∀ a ∈ as, a.Counted) :
          ∀ bs ∈ as :: s.threads, ∀ b ∈ bs, b.Counted := List.forall_mem_cons.mpr ⟨has, hothers⟩
      cases hphase : s.phase with
      | asleep =>
          exact ⟨h.attached, hcounted _ (List.forall_mem_singleton.mpr trivial), h.threads, h.holding,
            h.stats, .called⟩
      | packing stamp =>
          simp only
          cases hlast : s.shared.packs.getLast? with
          | none => exact h
          | some p =>
              exact ⟨h.attached, hcounted _ (List.forall_mem_nil _), h.threads, h.holding, h.stats,
                List.forall_mem_nil _⟩
      | streams stamp evs =>
          cases evs with
          | nil =>
              exact ⟨⟨h.attached.enabled, h.attached.publisher⟩, hcounted _ (List.forall_mem_nil _),
                h.threads, h.holding.setTel rfl rfl rfl, statsHold_packed P _ stamp stamp,
                List.forall_mem_nil _⟩
          | cons ev evs =>
              exact ⟨h.attached, hcounted _ (List.forall_mem_singleton.mpr trivial), h.threads,
                h.holding, h.stats, List.forall_mem_singleton.mpr trivial⟩
      | scripts evs =>
          cases evs with
          | nil =>
              exact ⟨h.attached, hcounted _ (List.forall_mem_nil _), h.threads, h.holding, h.stats,
                rfl⟩
          | cons ev evs =>
              exact ⟨h.attached, hcounted _ (List.forall_mem_singleton.mpr trivial), h.threads,
                h.holding, h.stats, List.forall_mem_singleton.mpr trivial⟩

theorem Tallied.step (h : Tallied p s) (t : MetricsTurn) : Tallied p (s.step t) := by
  cases t with
  | other i => exact h.other i
  | invoked scriptId durationNs => exact h.invoked scriptId durationNs
  | metrics now => exact h.emitMetrics now

end MetricsRun

end Mawmaw.Server
