import Mawmaw.Server.MetricsThread
import Mawmaw.Server.Threads

/-!
# A round of the metrics thread

The metrics thread is modelled twice: in `MetricsRun` lock by lock, for what it counts, and as one of
the threads of a `Pipeline`, for what it routes. A round that nobody interrupts is the same in both.

* `StreamRouter.emitMetrics` : a round, on the router alone;
* `MetricsRun.run_round`, `run_metrics_round` : it is what the thread does in either system.
-/

namespace Mawmaw.Core
open Mawmaw.Lib

variable {P : Nat}

namespace StreamRouter

/-- `emit_metrics` up to the last stream chunk, routed without interruption. -/
def emitStreams (r : StreamRouter P) (now : UInt64) : StreamRouter P :=
  let packed := r.tel.packStreamMetrics P now
  (metricsEvents P now streamsSchema (packed.1.getD [])).foldl route { r with tel := packed.2 }

/-- From there to its next sleep. -/
def emitScripts (r : StreamRouter P) (now : UInt64) : StreamRouter P :=
  let packed := r.tel.packScriptMetrics P now now
  (metricsEvents P now scriptsSchema (packed.1.getD [])).foldl route { r with tel := packed.2 }

/-- A round of `emit_metrics` at `now`, after the sleep. -/
def emitMetrics (r : StreamRouter P) (now : UInt64) : StreamRouter P :=
  if r.tel.enabled then (r.emitStreams now).emitScripts now else r

end StreamRouter

end Mawmaw.Core

namespace Mawmaw.Server
open Mawmaw.Lib Mawmaw.Core Mawmaw.Pub

variable {P : Nat}

/-! ## Lock by lock -/

namespace MetricsRun
variable {now : UInt64} {s s' s'' : MetricsRun P}

/-- The metrics thread alone takes `s` to `s'`. -/
structure Leads (now : UInt64) (s s' : MetricsRun P) : Prop where
  turns : ∃ n, s.run (List.replicate n (.metrics now)) = s'
  threads : s'.threads = s.threads

theorem Leads.refl (s : MetricsRun P) : Leads now s s := ⟨⟨0, rfl⟩, rfl⟩

/-- One turn first. -/
theorem Leads.next (h : Leads now (s.emitMetrics now) s')
    (hthreads : (s.emitMetrics now).threads = s.threads) : Leads now s s' := by
  obtain ⟨⟨n, hn⟩, hrest⟩ := h
  exact ⟨⟨n + 1, hn⟩, hrest.trans hthreads⟩

theorem Leads.trans (h : Leads now s s') (h' : Leads now s' s'') : Leads now s s'' := by
  obtain ⟨⟨m, hm⟩, hfirst⟩ := h
  obtain ⟨⟨n, hn⟩, hrest⟩ := h'
  refine ⟨⟨m + n, ?_⟩, hrest.trans hfirst⟩
  rw [List.replicate_add, run, List.foldl_append, ← run, ← run, hm]
  exact hn

/-- The actions of a call. -/
theorem leads_of_alone {c c' : CountState P} {as : List (CountAct P)} (h : Alone c as c') :
    ∀ {s : MetricsRun P}, s.shared = c → s.doing = as →
      ∃ s', Leads now s s' ∧ s'.shared = c' ∧ s'.doing = [] ∧ s'.phase = s.phase := by
  induction h with
  | nil c =>
      intro s hc hdoing
      exact ⟨s, .refl s, hc, hdoing, rfl⟩
  | @step c c' a rest _ ih =>
      intro s hc hdoing
      have hturn : s.emitMetrics now = s.proceed a rest := by rw [emitMetrics, hdoing]
      obtain ⟨hthreads, hphase, -⟩ := proceed_frame s a rest
      obtain ⟨s', hleads, hc', hdone, hphase'⟩ := ih (s := s.proceed a rest)
        (by rw [← hc]; rfl) (by rw [← hc]; rfl)
      rw [← hturn] at hleads hthreads
      exact ⟨s', hleads.next hthreads, hc', hdone, hphase'.trans hphase⟩

/-- Routing the events of a phase. -/
theorem leads_routes (phase : List (Event P) → MetricsPhase P)
    (hnext : ∀ (s : MetricsRun P) ev rest, s.doing = [] → s.phase = phase (ev :: rest) →
      s.emitMetrics now = { s with phase := phase rest, doing := [.call (.route ev)] })
    (evs : List (Event P)) : ∀ {s : MetricsRun P}, s.doing = [] → s.phase = phase evs →
      ∃ s', Leads now s s' ∧ s'.shared.router = evs.foldl StreamRouter.route s.shared.router ∧
        s'.doing = [] ∧ s'.phase = phase [] := by
  induction evs with
  | nil =>
      intro s hdoing hphase
      exact ⟨s, .refl s, rfl, hdoing, hphase⟩
  | cons ev evs ih =>
      intro s hdoing hphase
      have hturn := hnext s ev evs hdoing hphase
      obtain ⟨c', halone, hrouter⟩ := route_alone s.shared ev
      obtain ⟨s₁, hfirst, hc, hdone, hphase₁⟩ :=
        leads_of_alone halone (s := s.emitMetrics now) (by rw [hturn]) (by rw [hturn])
      rw [hturn] at hphase₁
      obtain ⟨s₂, hrest, hrouter₂, hdone₂, hphase₂⟩ := ih hdone hphase₁
      refine ⟨s₂, (hfirst.next (by rw [hturn])).trans hrest, ?_, hdone₂, hphase₂⟩
      rw [hrouter₂, hc, hrouter, List.foldl_cons]

/-- The thread wakes up, packs the stream metrics and routes the chunks. -/
theorem leads_streams (now : UInt64) (hphase : s.phase = .asleep) (hdoing : s.doing = []) :
    ∃ s', Leads now s s' ∧ s'.shared.router = s.shared.router.emitStreams now ∧
      s'.doing = [] ∧ s'.phase = .streams now [] := by
  have hwakes : s.emitMetrics now
      = { s with phase := .packing now, doing := [.call (.pack now)] } := by
    rw [emitMetrics, hdoing, hphase]
  obtain ⟨c, p, halone, hpacks, hsnapshot, -, hrouter⟩ := pack_alone s.shared now
  obtain ⟨s₁, hpacked, hc, hdone₁, hphase₁⟩ :=
    leads_of_alone halone (s := s.emitMetrics now) (by rw [hwakes]) (by rw [hwakes])
  rw [hwakes] at hphase₁
  have hstreams : s₁.emitMetrics now
      = { s₁ with
          phase := .streams now (metricsEvents P now streamsSchema ((p.snapshot.pack P).getD []))
          told := if p.returned then some s₁.draft else s₁.told } := by
    have hlast : s₁.shared.packs.getLast? = some p := by rw [hc, hpacks, List.getLast?_concat]
    rw [emitMetrics, hdone₁, hphase₁]
    dsimp only
    rw [hlast]
  obtain ⟨s₂, hrouted, hrouter₂, hdone₂, hphase₂⟩ :=
    leads_routes (.streams now) (fun s ev rest hd hp => by rw [emitMetrics, hd, hp]) _
      (s := s₁.emitMetrics now) (by rw [hstreams]; exact hdone₁) (by rw [hstreams])
  refine ⟨s₂, (hpacked.next (by rw [hwakes])).trans (hrouted.next (by rw [hstreams])), ?_,
    hdone₂, hphase₂⟩
  have hcounted : (s₁.emitMetrics now).shared.router
      = { s.shared.router with tel := (s.shared.tel.packStreamMetrics P now).2 } := by
    rw [hstreams]
    exact (congrArg CountState.router hc).trans hrouter
  rw [hrouter₂, hcounted, hsnapshot]
  rfl

/-- It packs the script metrics, routes the chunks and sleeps again. -/
theorem leads_scripts (hphase : s.phase = .streams now []) (hdoing : s.doing = []) :
    ∃ s', Leads now s s' ∧ s'.shared.router = s.shared.router.emitScripts now ∧
      s'.doing = [] ∧ s'.phase = .asleep := by
  have hscripts : s.emitMetrics now = { s with
      shared := s.shared.setTel (s.shared.tel.packScriptMetrics P now now).2
      phase := .scripts (metricsEvents P now scriptsSchema
        ((s.shared.tel.packScriptMetrics P now now).1.getD []))
      calls := []
      toldCalls := if (s.shared.tel.packScriptMetrics P now now).1.isSome then some (now, s.calls)
        else s.toldCalls } := by
    rw [emitMetrics, hdoing, hphase]
  obtain ⟨s₁, hrouted, hrouter, hdone, hphase₁⟩ :=
    leads_routes .scripts (fun s ev rest hd hp => by rw [emitMetrics, hd, hp]) _
      (s := s.emitMetrics now) (by rw [hscripts]; exact hdoing) (by rw [hscripts])
  have hsleeps : s₁.emitMetrics now = { s₁ with phase := .asleep } := by
    rw [emitMetrics, hdone, hphase₁]
  refine ⟨s₁.emitMetrics now, ?_, ?_, by rw [hsleeps]; exact hdone, by rw [hsleeps]⟩
  · exact (hrouted.next (by rw [hscripts])).trans (Leads.next (.refl _) (by rw [hsleeps]))
  · rw [hsleeps]
    show s₁.shared.router = _
    rw [hrouter, hscripts]
    rfl

/-- **A round, lock by lock.** -/
theorem run_round (now : UInt64) (hphase : s.phase = .asleep) (hdoing : s.doing = [])
    (henabled : s.shared.router.tel.enabled = true) :
    ∃ s', Leads now s s' ∧ s'.shared.router = s.shared.router.emitMetrics now ∧
      s'.doing = [] ∧ s'.phase = .asleep := by
  obtain ⟨s₁, hfirst, hrouter₁, hdone₁, hphase₁⟩ := leads_streams now hphase hdoing
  obtain ⟨s₂, hrest, hrouter₂, hdone₂, hphase₂⟩ := leads_scripts hphase₁ hdone₁
  refine ⟨s₂, hfirst.trans hrest, ?_, hdone₂, hphase₂⟩
  rw [hrouter₂, hrouter₁, StreamRouter.emitMetrics, if_pos henabled]

end MetricsRun

/-! ## As a thread of the pipeline -/

section Pipeline
variable (scripts : List (ScriptThread P)) {s : Pipeline P}

theorem step_metrics_idle (turn : Turn) (hthread : turn.thread = .metrics) (hidle : s.metrics = []) :
    step scripts s turn = packMetrics s turn.now := by
  rw [step, hthread]
  dsimp only
  rw [hidle]

/-- Awake, the thread packs the stream metrics. -/
theorem step_wakes (now : UInt64) (hidle : s.metrics = []) (hpacking : s.packing = none)
    (henabled : s.router.tel.enabled = true) :
    step scripts s { thread := .metrics, now } = { s with
      router := { s.router with tel := (s.router.tel.packStreamMetrics P now).2 }
      metrics := (metricsEvents P now streamsSchema
        ((s.router.tel.packStreamMetrics P now).1.getD [])).map .route
      packing := some now } := by
  rw [step_metrics_idle scripts _ rfl hidle, packMetrics, hpacking]
  dsimp only
  rw [if_pos henabled]

/-- When these are routed, it packs the script metrics. -/
theorem step_packs {now : UInt64} (turn : Turn) (hthread : turn.thread = .metrics)
    (hidle : s.metrics = []) (hpacking : s.packing = some now) :
    step scripts s turn = { s with
      router := { s.router with tel := (s.router.tel.packScriptMetrics P now now).2 }
      metrics := (metricsEvents P now scriptsSchema
        ((s.router.tel.packScriptMetrics P now now).1.getD [])).map .route
      packing := none } := by
  rw [step_metrics_idle scripts turn hthread hidle, packMetrics, hpacking]

theorem step_sleeps (now : UInt64) (hidle : s.metrics = []) (hpacking : s.packing = none)
    (hdisabled : s.router.tel.enabled = false) :
    step scripts s { thread := .metrics, now } = s := by
  rw [step_metrics_idle scripts _ rfl hidle, packMetrics, hpacking]
  dsimp only
  rw [hdisabled, if_neg Bool.false_ne_true]

/-- **A round, as a thread of the pipeline.** -/
theorem run_metrics_round (now : UInt64) (hidle : s.metrics = []) (hpacking : s.packing = none) :
    ∃ n, Performed s .metrics (s.router.emitMetrics now) []
      (run scripts s ({ thread := .metrics, now } :: turns n .metrics)) := by
  cases henabled : s.router.tel.enabled with
  | false =>
      refine ⟨0, ?_⟩
      rw [run_cons, step_sleeps scripts now hidle hpacking henabled, StreamRouter.emitMetrics,
        henabled, if_neg Bool.false_ne_true]
      exact .refl hidle
  | true =>
      have hwakes := step_wakes scripts now hidle hpacking henabled
      have hstreams : (step scripts s { thread := .metrics, now }).actions .metrics
          = (metricsEvents P now streamsSchema
            ((s.router.tel.packStreamMetrics P now).1.getD [])).map .route ++ [] := by
        rw [hwakes, List.append_nil]
        rfl
      obtain ⟨m, hm⟩ := run_routes scripts _ hstreams
      have hawake := hm.packing.trans (congrArg Pipeline.packing hwakes)
      have hpacks := step_packs scripts { thread := .metrics } rfl hm.own hawake
      have hscripts := congrArg (Pipeline.actions · .metrics) hpacks
      obtain ⟨n, hn⟩ := run_routes scripts _ (hscripts.trans (List.append_nil _).symm)
      refine ⟨m + (n + 1), ?_⟩
      rw [run_cons, turns_add, run_append, turns_succ, run_cons]
      refine ⟨?_, ?_, ?_, ?_⟩
      · rw [hn.router, hpacks, hm.router, hwakes, StreamRouter.emitMetrics, if_pos henabled]
        rfl
      · rw [hn.triggers, hpacks, hm.triggers, hwakes]
      · rw [hn.packing, hpacks, hpacking]
      · rw [hn.actions, hpacks, actions_set_metrics, hm.actions, hwakes, actions_set_metrics,
          Function.update_idem, Function.update_idem, Function.update_idem]

end Pipeline

end Mawmaw.Server
