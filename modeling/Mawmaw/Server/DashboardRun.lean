import Mawmaw.Server.Delivery
import Mawmaw.Server.MetricsThread

/-!
# What the dashboard tells of a run

The metrics thread's chunks reach a telemetry endpoint by the router they count.

* `Tells`, `TellsCalls` : a group shown is the count of a period, or of the script calls since the
  last pack;
* `ReachesDashboard` : the routes lead the metrics to the endpoint; `dashboard` : what it has made of
  the events published to it;
* `Sending` : the chunks of a round on their way; `UpToDate` : the last reports are shown;
* `dashboard_reports` : whenever the metrics thread sleeps, in every run.
-/

namespace Mawmaw.Server
open Mawmaw.Lib Mawmaw.Core Mawmaw.Pub

variable {P : Nat}

/-! ## What is told -/

/-- The group shows what was counted in the period, one entry for each stream, identifiers cut. -/
structure Tells (q : Period) (g : StreamGroup) : Prop where
  timestampNs : g.key = q.timestampNs
  totals : g.info =
    { totalEvents := UInt64.ofNat (q.recorded.countP fun sid => !Telemetry.isOwnStream sid)
      totalEmitted := UInt64.ofNat (q.delivered.countP fun sid => !Telemetry.isOwnStream sid)
      drops := UInt64.ofNat q.dropped }
  entries : ∃ entries : List (Str × UInt64), g.items.Perm (entries.map shownCount) ∧
    (entries.map (·.1)).Nodup ∧ ∀ sid, Telemetry.isOwnStream sid = false →
      ((entries.filter fun e => e.1 = sid).map (·.2)).sum
        = UInt64.ofNat (q.recorded.count sid) + UInt64.ofNat (q.delivered.count sid)

/-- The group shows the statistics of the calls of each registered script that was called. -/
structure TellsCalls (registered : Str → Prop) (q : UInt64 × List (Str × UInt64))
    (g : ScriptGroup) : Prop where
  timestampNs : g.key = q.1
  entries : ∃ entries : List (Str × ScriptStats), g.items.Perm (entries.map shownStats) ∧
    (entries.map (·.1)).Nodup ∧ ∀ id st, (id, st) ∈ entries ↔
      registered id ∧ st = statsOf (callsOf q.2 id) ∧ 0 < st.count

theorem nodup_toPairs {ν : Type} (m : UMap Str ν) : (m.toPairs.map (·.1)).Nodup := by
  have hkeys : m.toPairs.map (·.1) = m.keys := by
    rw [UMap.toPairs, List.map_map]
    rfl
  rw [hkeys]
  exact m.keys_nodup

theorem mem_toPairs {ν : Type} {m : UMap Str ν} {k : Str} {v : ν} :
    (k, v) ∈ m.toPairs ↔ m.lookup k = some v := by
  constructor
  · exact UMap.lookup_of_mem_toPairs
  · intro h
    exact List.mem_map.mpr ⟨⟨k, v⟩, AList.mem_lookup_iff.mp h, rfl⟩

theorem PackedOf.tells {q : Period} {p : PackCall} (h : PackedOf P q p) {g : StreamGroup}
    (hg : ShowsStream p.snapshot g) : Tells q g := by
  have hassembled : p.Assembled P := ⟨⟨_, _, h.snapshot⟩, h.returned⟩
  have hstamp : p.snapshot.timestampNs = q.timestampNs := by
    rw [h.snapshot]
    rfl
  have hdrops : p.snapshot.drops = UInt64.ofNat q.dropped := by
    rw [h.snapshot]
    rfl
  have hnodup : (p.snapshot.entries.map (·.1)).Nodup := by
    rw [h.snapshot]
    exact nodup_toPairs _
  refine ⟨hg.timestampNs.trans hstamp, ?_, p.snapshot.entries, hg.entries, hnodup, fun sid hsid => ?_⟩
  · have hevents : p.snapshot.totalEvents = Measure.total.credit q.recorded :=
      hassembled.totals.1.trans (h.events .total)
    have hemitted : p.snapshot.totalEmitted = Measure.total.credit q.delivered :=
      hassembled.totals.2.trans (h.emitted .total)
    rw [hg.totals, hevents, hemitted, hdrops, Measure.credit_total, Measure.credit_total]
  · rw [← Measure.credit_atStream hsid, ← Measure.credit_atStream hsid, ← h.events, ← h.emitted]
    exact hassembled.entryCount sid

theorem tellsCalls_of_shows {registered : Str → Prop} {tel : Telemetry} {now : UInt64}
    {calls : List (Str × UInt64)} (hstats : StatsHold tel calls)
    (hreg : ∀ id, (tel.scriptStats.lookup id).isSome ↔ registered id) {g : ScriptGroup}
    (hg : ShowsScript (tel.scriptSnapshot now now) g) : TellsCalls registered (now, calls) g := by
  refine ⟨hg.timestampNs.trans (ite_self now), _, hg.entries, ?_, fun id st => ?_⟩
  · exact ((nodup_toPairs tel.scriptStats).sublist (List.filter_sublist.map _))
  · rw [Telemetry.scriptSnapshot, List.mem_filter, mem_toPairs, decide_eq_true_iff, ← hreg]
    constructor
    · rintro ⟨hst, hpos⟩
      exact ⟨Option.isSome_iff_exists.mpr ⟨st, hst⟩, hstats id st hst, hpos⟩
    · rintro ⟨hsome, rfl, hpos⟩
      obtain ⟨st, hst⟩ := Option.isSome_iff_exists.mp hsome
      rw [hst, hstats id st hst]
      exact ⟨rfl, hpos⟩

/-! ## The way to the dashboard -/

/-- The metrics are routed to the telemetry endpoint `d`. -/
structure ReachesDashboard (d : Str) (r : StreamRouter P) : Prop where
  routed : d ∈ UMap.getD r.routeTable (lit "telemetry") []
  handler : r.handlers.lookup d = none
  publisher : ∃ pub, r.publisher = some pub ∧ pub.endpoints.lookup d = some (.telemetryStdout d)

/-- What has been published to `d`, oldest first. -/
def publishedTo (d : Str) (r : StreamRouter P) : List (Event P) :=
  r.publisher.elim [] fun pub => (pub.delivered.filter fun e => e.1 = d).map (·.2)

/-- The endpoint `d`. -/
def MetricsRun.dashboard (d : Str) (s : MetricsRun P) : TelemetryStdoutEndpoint :=
  ({ id := d } : TelemetryStdoutEndpoint).publishAll (publishedTo d s.shared.router)

namespace CountAct

/-- What the action publishes to `d`. -/
def publishes (d : Str) : CountAct P → List (Event P)
  | .publish ev id => if id = d then [ev] else []
  | _ => []

/-- The action leads to a publication of `ev` to `d`. -/
def Owes (d : Str) (ev : Event P) : CountAct P → Prop
  | .call (.route e) | .targets e => e = ev
  | .target e id | .publish e id => e = ev ∧ id = d
  | _ => False

theorem mem_of_publishes {d : Str} {a : CountAct P} {p : Event P → Prop} (ha : a.Routes p)
    {ev : Event P} (hev : ev ∈ a.publishes d) : p ev := by
  cases a with
  | publish e id =>
      simp only [publishes] at hev
      split at hev
      · rw [List.mem_singleton.mp hev]
        exact ha
      · cases hev
  | call _ | recordEvent _ | insertEvent _ | push _ | recordDrop | write _ | targets _ | target _ _
  | recordEmitted _ | insertEmitted _ | packEmitted _ _ | packDrops _ _ _ => cases hev

end CountAct

section Way
variable {d : Str} {c : CountState P}

/-- What an action does to the way, and to what is published. -/
structure Publishes (d : Str) (a : CountAct P) (r r' : StreamRouter P) : Prop where
  published : publishedTo d r' = publishedTo d r ++ a.publishes d
  reaches : ReachesDashboard d r'

/-- An action that publishes nothing and leaves the way as it is. -/
theorem Publishes.quiet {a : CountAct P} {r r' : StreamRouter P} (hd : ReachesDashboard d r)
    (ha : a.publishes d = []) (hpub : r'.publisher = r.publisher)
    (hroutes : r'.routeTable = r.routeTable) (hhandlers : r'.handlers = r.handlers) :
    Publishes d a r r' where
  published := by
    rw [ha, List.append_nil, publishedTo, hpub, publishedTo]
  reaches := ⟨hroutes ▸ hd.routed, hhandlers ▸ hd.handler, hpub ▸ hd.publisher⟩

theorem perform_publishes (hd : ReachesDashboard d c.router) (a : CountAct P) :
    Publishes d a c.router (c.perform a).1.router := by
  cases a with
  | call call => cases call <;> exact .quiet hd rfl rfl rfl rfl
  | recordEvent sid =>
      simp only [CountState.perform]
      split
      · exact .quiet hd rfl rfl rfl rfl
      · split <;> exact .quiet hd rfl rfl rfl rfl
  | recordEmitted sid =>
      simp only [CountState.perform]
      split
      · exact .quiet hd rfl rfl rfl rfl
      · split <;> exact .quiet hd rfl rfl rfl rfl
  | insertEvent _ | push _ | recordDrop | write _ | targets _ | insertEmitted _ | packEmitted _ _
  | packDrops _ _ _ => exact .quiet hd rfl rfl rfl rfl
  | target ev id =>
      simp only [CountState.perform]
      split
      · exact .quiet hd rfl rfl rfl rfl
      · rename_i hnot
        obtain ⟨hroutes, hhandlers, -, -⟩ := c.router.routeTarget_frame ev id
        exact .quiet hd rfl (routeTarget_no_endpoint ev hnot).2 hroutes hhandlers
  | publish ev id =>
      obtain ⟨pub, hpub, hep⟩ := hd.publisher
      simp only [CountState.perform, hpub, CountState.publish]
      cases hid : pub.endpoints.lookup id with
      | none =>
          have hne : id ≠ d := by
            rintro rfl
            rw [hep] at hid
            cases hid
          exact .quiet hd (if_neg hne) rfl rfl rfl
      | some ep =>
          have hafter (r' : StreamRouter P)
              (hr' : r' = { c.router with publisher := some (pub.publishTo c.tel ev id).1 }) :
              Publishes d (.publish ev id) c.router r' := by
            subst hr'
            have hdelivered : (pub.publishTo c.tel ev id).1
                = { pub with delivered := pub.delivered ++ [(id, ev)] } :=
              Publisher.publishTo_of_hasEndpoint (Option.isSome_iff_exists.mpr ⟨ep, hid⟩)
            refine ⟨?_, hd.routed, hd.handler, _, rfl, ?_⟩
            · simp only [publishedTo, hpub, hdelivered, Option.elim_some, List.filter_append,
                List.map_append, CountAct.publishes]
              by_cases h : id = d
              · rw [if_pos h, List.filter_cons_of_pos (by simpa using h)]
                rfl
              · rw [if_neg h, List.filter_cons_of_neg (by simpa using h)]
                rfl
            · rw [hdelivered]
              exact hep
          simp only
          split <;> exact hafter _ rfl

/-- A publication that is owed is made, or owed by what comes next. -/
theorem perform_owes (hd : ReachesDashboard d c.router) {ev : Event P}
    (hev : ev.stream = lit "telemetry") {a : CountAct P} (ha : a.Owes d ev) :
    ev ∈ a.publishes d ∨ ∃ b ∈ (c.perform a).2, b.Owes d ev := by
  cases a with
  | call call =>
      cases call with
      | route e => exact .inr ⟨.targets e, List.mem_append_right _ (by simp), ha⟩
      | pack now => exact ha.elim
  | targets e =>
      obtain rfl : e = ev := ha
      refine .inr ⟨.target e d, List.mem_map.mpr ⟨d, ?_, rfl⟩, rfl, rfl⟩
      rw [StreamRouter.targets, hev]
      exact hd.routed
  | target e id =>
      obtain ⟨rfl, rfl⟩ := ha
      obtain ⟨pub, hpub, hep⟩ := hd.publisher
      have hsplit : ((c.router.handlers.lookup id).isNone &&
          c.router.publisher.any (·.hasEndpoint id)) = true := by
        rw [hd.handler, hpub, Option.any_some, Publisher.hasEndpoint, hep]
        rfl
      refine .inr ⟨.publish e id, ?_, rfl, rfl⟩
      rw [CountState.perform, if_pos hsplit]
      exact List.mem_singleton_self _
  | publish e id =>
      obtain ⟨rfl, rfl⟩ := ha
      refine .inl ?_
      rw [CountAct.publishes, if_pos rfl]
      exact List.mem_singleton_self _
  | recordEvent _ | insertEvent _ | push _ | recordDrop | write _ | recordEmitted _
  | insertEmitted _ | packEmitted _ _ | packDrops _ _ _ => exact ha.elim

end Way

/-! ## Other threads' events -/

/-- The stream is none of the dashboard's. -/
def Foreign (ev : Event P) : Prop := strncmpEq ev.streamId.toList (lit "telemetry") 9 = false

theorem publish_foreign {ev : Event P} (h : Foreign ev) (ep : TelemetryStdoutEndpoint) :
    ep.publish ev = ep := by
  have hlong : strncmpEq ev.streamId.toList (lit "telemetry.") 10 = false := by
    rw [Foreign, strncmpEq, beq_eq_false_iff_ne] at h
    rw [strncmpEq, beq_eq_false_iff_ne]
    intro heq
    have hshort := congrArg (List.take 9) heq
    rw [List.take_take, List.take_take] at hshort
    exact h hshort
  rw [Foreign] at h
  rw [TelemetryStdoutEndpoint.publish, h, hlong]
  rfl

theorem publishAll_foreign {evs : List (Event P)} (h : ∀ ev ∈ evs, Foreign ev)
    (ep : TelemetryStdoutEndpoint) : ep.publishAll evs = ep := by
  induction evs with
  | nil => rfl
  | cons ev evs ih =>
      rw [TelemetryStdoutEndpoint.publishAll, List.foldl_cons, publish_foreign (h ev (by simp))]
      exact ih fun ev' hev' => h ev' (by simp [hev'])

theorem publishAll_append (ep : TelemetryStdoutEndpoint) (evs evs' : List (Event P)) :
    ep.publishAll (evs ++ evs') = (ep.publishAll evs).publishAll evs' := List.foldl_append

/-! ## A round on its way -/

/-- The events `all` of a round: those in `rest` are still to be routed, the others have arrived at
the endpoint, which was `before`, or are owed by what the thread is doing. -/
structure Sending (d : Str) (all rest : List (Event P)) (doing : List (CountAct P))
    (before ep : TelemetryStdoutEndpoint) : Prop where
  stream : ∀ ev ∈ all, ev.stream = lit "telemetry"
  mem_rest : ∀ ev ∈ rest, ev ∈ all
  routes : ∀ a ∈ doing, a.Routes (· ∈ all)
  arrived : ∃ evs, ep = before.publishAll evs ∧ (∀ ev ∈ evs, ev ∈ all) ∧
    ∀ ev ∈ all, ev ∈ rest ∨ ev ∈ evs ∨ ∃ a ∈ doing, a.Owes d ev

section Round
variable {d : Str} {all rest : List (Event P)} {doing : List (CountAct P)}
  {before ep : TelemetryStdoutEndpoint} {c : CountState P}

theorem Sending.start (hstream : ∀ ev ∈ all, ev.stream = lit "telemetry")
    (ep : TelemetryStdoutEndpoint) : Sending d all all [] ep ep where
  stream := hstream
  mem_rest _ hev := hev
  routes := List.forall_mem_nil _
  arrived := ⟨[], rfl, List.forall_mem_nil _, fun _ hev => .inl hev⟩

theorem Sending.next {ev : Event P} (h : Sending d all (ev :: rest) [] before ep) :
    Sending d all rest [.call (.route ev)] before ep := by
  obtain ⟨evs, hep, hevs, hall⟩ := h.arrived
  refine ⟨h.stream, fun e he => h.mem_rest e (List.mem_cons_of_mem ev he),
    List.forall_mem_singleton.mpr (h.mem_rest ev List.mem_cons_self), evs, hep, hevs, fun e he => ?_⟩
  rcases hall e he with hrest | harrived | ⟨a, ha, -⟩
  · rcases List.mem_cons.mp hrest with rfl | hrest
    · exact .inr (.inr ⟨_, List.mem_singleton_self _, rfl⟩)
    · exact .inl hrest
  · exact .inr (.inl harrived)
  · cases ha

/-- One action of the thread. -/
theorem Sending.perform {a : CountAct P} (h : Sending d all rest (a :: doing) before ep)
    (hd : ReachesDashboard d c.router) :
    Sending d all rest ((c.perform a).2 ++ doing) before (ep.publishAll (a.publishes d)) := by
  obtain ⟨ha, hdoing⟩ := List.forall_mem_cons.mp h.routes
  obtain ⟨evs, rfl, hevs, hall⟩ := h.arrived
  refine ⟨h.stream, h.mem_rest, fun b hb => ?_, evs ++ a.publishes d,
    (publishAll_append before _ _).symm, fun ev hev => ?_, fun ev hev => ?_⟩
  · rcases List.mem_append.mp hb with hb | hb
    · exact CountState.perform_routes ha b hb
    · exact hdoing b hb
  · rcases List.mem_append.mp hev with hev | hev
    · exact hevs ev hev
    · exact CountAct.mem_of_publishes ha hev
  · rcases hall ev hev with hrest | harrived | ⟨b, hb, howes⟩
    · exact .inl hrest
    · exact .inr (.inl (List.mem_append_left _ harrived))
    · rcases List.mem_cons.mp hb with rfl | hb
      · rcases perform_owes hd (h.stream ev hev) howes with hnow | ⟨b', hb', howes'⟩
        · exact .inr (.inl (List.mem_append_right _ hnow))
        · exact .inr (.inr ⟨b', List.mem_append_left _ hb', howes'⟩)
      · exact .inr (.inr ⟨b, List.mem_append_right _ hb, howes⟩)

/-- When nothing is left, all events have arrived. -/
theorem Sending.done (h : Sending d all [] [] before ep) :
    ∃ evs, ep = before.publishAll evs ∧ ∀ ev, ev ∈ evs ↔ ev ∈ all := by
  obtain ⟨evs, hep, hevs, hall⟩ := h.arrived
  refine ⟨evs, hep, fun ev => ⟨hevs ev, fun hev => ?_⟩⟩
  rcases hall ev hev with hrest | harrived | ⟨a, ha, -⟩
  · cases hrest
  · exact harrived
  · cases ha

end Round

/-! ## Reports -/

/-- The last reports are shown, and what is pending is left from them. -/
structure UpToDate (registered : Str → Prop) (told : Option Period)
    (toldCalls : Option (UInt64 × List (Str × UInt64))) (ep : TelemetryStdoutEndpoint) : Prop where
  streams : ∀ q, told = some q → ∃ g, ep.latestStream = some g ∧ Tells q g
  scripts : ∀ q, toldCalls = some q → ∃ g, ep.latestScript = some g ∧ TellsCalls registered q g
  pendingStream : ∀ g, ep.pendingStream = some g → ∃ q, told = some q ∧ g.key = q.timestampNs
  pendingScript : ∀ g, ep.pendingScript = some g → ∃ q, toldCalls = some q ∧ g.key = q.1

section Report
variable {registered : Str → Prop} {told : Option Period}
  {toldCalls : Option (UInt64 × List (Str × UInt64))} {ep : TelemetryStdoutEndpoint}

theorem stream_of_mem {now : UInt64} {schema : Str} {chunks : List (List UInt8)} {ev : Event P}
    (h : ev ∈ metricsEvents P now schema chunks) : ev.stream = lit "telemetry" := by
  obtain ⟨chunk, hcarries⟩ := carries_of_mem h
  rw [Event.stream, hcarries.stream]
  decide

theorem publishAll_streams_scripts {now : UInt64} {chunks : List (List UInt8)}
    (evs : List (Event P)) (h : ∀ ev ∈ evs, ev ∈ metricsEvents P now streamsSchema chunks)
    (ep : TelemetryStdoutEndpoint) : (ep.publishAll evs).scripts = ep.scripts := by
  induction evs generalizing ep with
  | nil => rfl
  | cons ev evs ih =>
      obtain ⟨chunk, hcarries⟩ := carries_of_mem (h ev (by simp))
      rw [TelemetryStdoutEndpoint.publishAll, List.foldl_cons, publish_stream hcarries]
      exact ih (fun ev' hev' => h ev' (by simp [hev'])) _

theorem publishAll_scripts_streams {now : UInt64} {chunks : List (List UInt8)}
    (evs : List (Event P)) (h : ∀ ev ∈ evs, ev ∈ metricsEvents P now scriptsSchema chunks)
    (ep : TelemetryStdoutEndpoint) : (ep.publishAll evs).streams = ep.streams := by
  induction evs generalizing ep with
  | nil => rfl
  | cons ev evs ih =>
      obtain ⟨chunk, hcarries⟩ := carries_of_mem (h ev (by simp))
      rw [TelemetryStdoutEndpoint.publishAll, List.foldl_cons, publish_script hcarries]
      exact ih (fun ev' hev' => h ev' (by simp [hev'])) _

section Pending
variable {K I E : Type} [DecidableEq K] {S : Snapshot K I E} {dec : List UInt8 → Chunk K I E}

theorem receive_pending (a : Assembler K I E) (c : Chunk K I E) {g : Group K I E}
    (hg : (a.receive c).pending = some g) : g.key = c.key := by
  have hcurrent : (a.current c).key = c.key := by
    unfold Assembler.current
    split
    · split
      · assumption
      · rfl
    · rfl
  unfold Assembler.receive at hg
  simp only at hg
  split at hg
  · rw [← Option.some.inj hg]
    exact hcurrent
  · split at hg
    · cases hg
    · rw [← Option.some.inj hg]
      exact hcurrent

/-- What is pending after chunks of a snapshot is left from it. -/
theorem Carried.pending {sent evs : List (Event P)} (h : Carried S dec sent) (hS : S.parts ≠ [])
    (hevs : ∀ ev, ev ∈ evs ↔ ev ∈ sent) (a : Assembler K I E) {g : Group K I E}
    (hg : (evs.foldl (fun a ev => a.receive (dec ev.payload.toList)) a).pending = some g) :
    g.key = S.key := by
  obtain ⟨ev, hev, -⟩ := h.cover 0 (List.length_pos_of_ne_nil hS)
  have hne : evs ≠ [] := List.ne_nil_of_mem ((hevs ev).mpr hev)
  rw [← List.dropLast_append_getLast hne, List.foldl_append, List.foldl_cons, List.foldl_nil] at hg
  have hlast := (hevs _).mp (List.getLast_mem hne)
  rw [receive_pending _ _ hg, h.chunk _ hlast]
  rfl

end Pending

/-- Once the chunks of a pack have arrived, its period is shown. -/
theorem UpToDate.streams_arrived (h : UpToDate registered told toldCalls ep) (hP : 76 ≤ P)
    (hn : P < 36 + 40 * 2 ^ 16) {q : Period} {p : PackCall} (hp : PackedOf P q p)
    (hc : p.snapshot.chunkCount P ≤ 255)
    (hfresh : ∀ q', told = some q' → q'.timestampNs ≠ q.timestampNs) {evs : List (Event P)}
    (hevs : ∀ ev, ev ∈ evs ↔
      ev ∈ metricsEvents P q.timestampNs streamsSchema ((p.snapshot.pack P).getD [])) :
    UpToDate registered (if p.returned then some q else told) toldCalls (ep.publishAll evs) := by
  cases hpack : p.snapshot.pack P with
  | none =>
      have hreturned : p.returned = false := by
        rw [hp.returned, hpack]
        rfl
      have hnil : evs = [] := by
        refine List.eq_nil_iff_forall_not_mem.mpr fun ev hev => ?_
        rw [hevs, hpack] at hev
        cases hev
      rw [hreturned, hnil]
      exact h
  | some chunks =>
      have hreturned : p.returned = true := by
        rw [hp.returned, hpack]
        rfl
      simp only [hpack, Option.getD_some] at hevs
      have hmem : ∀ ev ∈ evs, ev ∈ metricsEvents P q.timestampNs streamsSchema chunks :=
        fun ev hev => (hevs ev).mp hev
      have hstamp : p.snapshot.timestampNs = q.timestampNs := by
        rw [hp.snapshot]
        rfl
      have hlen := StreamSnapshot.length_of_pack hpack
      have hpending : ∀ g, ep.pendingStream = some g → g.key ≠ p.snapshot.timestampNs := by
        intro g hg
        obtain ⟨q', hq', hkey⟩ := h.pendingStream g hg
        rw [hkey, hstamp]
        exact hfresh q' hq'
      obtain ⟨g, hg, hshows⟩ := stream_shown hP hn q.timestampNs ep evs p.snapshot hpack (by omega)
        hpending hevs
      have hscripts := publishAll_streams_scripts evs hmem ep
      rw [hreturned, if_pos rfl]
      refine ⟨?_, fun q' hq' => ?_, fun g' hg' => ?_, fun g' hg' => ?_⟩
      · intro q' hq'
        rw [← Option.some.inj hq']
        exact ⟨g, hg, hp.tells hshows⟩
      · rw [TelemetryStdoutEndpoint.latestScript, hscripts]
        exact h.scripts q' hq'
      · rw [TelemetryStdoutEndpoint.pendingStream, publishAll_streams evs hmem] at hg'
        have hparts : (streamParts P p.snapshot).parts ≠ [] := by
          rw [← List.length_pos_iff, streamParts, List.length_map, StreamSnapshot.length_parts]
          exact StreamSnapshot.chunkCount_pos hP p.snapshot
        have hcarried := carried_streamEvents hP hn q.timestampNs hpack hc
        exact ⟨q, rfl, (hcarried.pending hparts hevs _ hg').trans hstamp⟩
      · rw [TelemetryStdoutEndpoint.pendingScript, hscripts] at hg'
        exact h.pendingScript g' hg'

/-- Once the chunks of the packed statistics have arrived, the calls are shown. -/
theorem UpToDate.scripts_arrived (h : UpToDate registered told toldCalls ep) (hP : 76 ≤ P)
    (hn : P < 36 + 40 * 2 ^ 16) {tel : Telemetry} {now : UInt64} {calls : List (Str × UInt64)}
    (hstats : StatsHold tel calls) (hreg : ∀ id, (tel.scriptStats.lookup id).isSome ↔ registered id)
    (hc : (tel.scriptSnapshot now now).chunkCount P ≤ 255)
    (hfresh : ∀ q, toldCalls = some q → q.1 ≠ now) {evs : List (Event P)}
    (hevs : ∀ ev, ev ∈ evs ↔
      ev ∈ metricsEvents P now scriptsSchema (((tel.scriptSnapshot now now).pack P).getD [])) :
    UpToDate registered told
      (if ((tel.scriptSnapshot now now).pack P).isSome then some (now, calls) else toldCalls)
      (ep.publishAll evs) := by
  cases hpack : (tel.scriptSnapshot now now).pack P with
  | none =>
      have hnil : evs = [] := by
        refine List.eq_nil_iff_forall_not_mem.mpr fun ev hev => ?_
        rw [hevs, hpack] at hev
        cases hev
      rw [hnil]
      exact h
  | some chunks =>
      simp only [hpack, Option.getD_some] at hevs
      have hmem : ∀ ev ∈ evs, ev ∈ metricsEvents P now scriptsSchema chunks :=
        fun ev hev => (hevs ev).mp hev
      have hstamp : (tel.scriptSnapshot now now).timestampNs = now := ite_self now
      have hlen := ScriptSnapshot.length_of_pack hpack
      have hpending : ∀ g, ep.pendingScript = some g →
          g.key ≠ (tel.scriptSnapshot now now).timestampNs := by
        intro g hg
        obtain ⟨q', hq', hkey⟩ := h.pendingScript g hg
        rw [hkey, hstamp]
        exact hfresh q' hq'
      obtain ⟨g, hg, hshows⟩ := script_shown hP hn now ep evs _ hpack (by omega) hpending hevs
      have hstreams := publishAll_scripts_streams evs hmem ep
      rw [Option.isSome_some, if_pos rfl]
      refine ⟨fun q' hq' => ?_, ?_, fun g' hg' => ?_, fun g' hg' => ?_⟩
      · rw [TelemetryStdoutEndpoint.latestStream, hstreams]
        exact h.streams q' hq'
      · intro q' hq'
        rw [← Option.some.inj hq']
        exact ⟨g, hg, tellsCalls_of_shows hstats hreg hshows⟩
      · rw [TelemetryStdoutEndpoint.pendingStream, hstreams] at hg'
        exact h.pendingStream g' hg'
      · rw [TelemetryStdoutEndpoint.pendingScript, publishAll_scripts evs hmem] at hg'
        have hparts : (scriptParts P (tel.scriptSnapshot now now)).parts ≠ [] := by
          rw [← List.length_pos_iff, scriptParts, List.length_map, ScriptSnapshot.length_parts]
          exact ScriptSnapshot.chunkCount_pos hP (ScriptSnapshot.pack_eq_some.mp hpack).2
        have hcarried := carried_scriptEvents hP hn now hpack hc
        exact ⟨(now, calls), rfl, (hcarried.pending hparts hevs _ hg').trans hstamp⟩

end Report

/-! ## Runs -/

/-- The period is a stretch of the logs. -/
structure Period.Within (q : Period) (c : CountState P) : Prop where
  recorded : q.recorded <:+: c.recorded
  delivered : q.delivered <:+: c.delivered

theorem Period.Within.mono {q : Period} {c c' : CountState P} (h : q.Within c)
    (hrecorded : c.recorded <+: c'.recorded) (hdelivered : c.delivered <+: c'.delivered) :
    q.Within c' :=
  ⟨h.recorded.trans hrecorded.isInfix, h.delivered.trans hdelivered.isInfix⟩

/-- The logs only grow. -/
theorem CountState.Effect.grows {c c' : CountState P} {a : CountAct P} {as : List (CountAct P)}
    (h : Effect c a c' as) : c.recorded <+: c'.recorded ∧ c.delivered <+: c'.delivered := by
  cases h with
  | quiet ha hsame has =>
      rw [hsame.recorded, hsame.delivered]
      exact ⟨List.prefix_rfl, List.prefix_rfl⟩
  | recordOwn _ _ | bumpEvent _ _ => exact ⟨List.prefix_append _ _, List.prefix_rfl⟩
  | deliverOwn _ _ | bumpEmitted _ _ => exact ⟨List.prefix_rfl, List.prefix_append _ _⟩
  | drop | packEvents _ | packEmitted _ _ | packDrops _ _ _ _ _ =>
      exact ⟨List.prefix_rfl, List.prefix_rfl⟩

namespace MetricsRun

/-- What is asked of a turn: the clock reads another time than at the last reports, and no report
needs more than 255 chunks. -/
def clear (s : MetricsRun P) : MetricsTurn → Bool
  | .metrics now =>
    match s.doing, s.phase with
    | [], .asleep => s.told.all (·.timestampNs != now) && s.toldCalls.all (·.1 != now)
    | [], .packing _ => s.shared.packs.getLast?.all fun p => decide (p.snapshot.chunkCount P ≤ 255)
    | [], .streams stamp [] =>
      decide ((s.shared.tel.scriptSnapshot stamp stamp).chunkCount P ≤ 255)
    | _, _ => true
  | _ => true

/-- The events of a round are on their way, and with them the reports. -/
def OnTheWay (d : Str) (registered : Str → Prop) (rest : List (Event P)) (s : MetricsRun P) : Prop :=
  ∃ all before, Sending d all rest s.doing before (s.dashboard d) ∧
    ∀ evs : List (Event P), (∀ ev, ev ∈ evs ↔ ev ∈ all) →
      UpToDate registered s.told s.toldCalls (before.publishAll evs)

/-- The dashboard in each phase. -/
def Reporting (d : Str) (registered : Str → Prop) (s : MetricsRun P) : Prop :=
  match s.phase with
  | .asleep => UpToDate registered s.told s.toldCalls (s.dashboard d)
  | .packing now => UpToDate registered s.told s.toldCalls (s.dashboard d) ∧
    (∀ q, s.told = some q → q.timestampNs ≠ now) ∧ ∀ q, s.toldCalls = some q → q.1 ≠ now
  | .streams now rest => OnTheWay d registered rest s ∧ ∀ q, s.toldCalls = some q → q.1 ≠ now
  | .scripts rest => OnTheWay d registered rest s

/-- **The dashboard invariant.** -/
structure Reports (d : Str) (registered : Str → Prop) (s : MetricsRun P) : Prop where
  tallied : Tallied Foreign s
  reaches : ReachesDashboard d s.shared.router
  known : ∀ id, (s.shared.tel.scriptStats.lookup id).isSome ↔ registered id
  reporting : s.Reporting d registered

section Steps
variable {d : Str} {registered : Str → Prop} {s s' : MetricsRun P}

/-- What the dashboard's part of the invariant looks at. -/
theorem Reporting.congr (h : s.Reporting d registered) (hphase : s'.phase = s.phase)
    (hdoing : s'.doing = s.doing) (htold : s'.told = s.told) (hcalls : s'.toldCalls = s.toldCalls)
    (hdash : s'.dashboard d = s.dashboard d) : s'.Reporting d registered := by
  unfold Reporting OnTheWay at h ⊢
  rw [hphase, hdoing, htold, hcalls, hdash]
  exact h

theorem dashboard_perform (hd : ReachesDashboard d s.shared.router) (a : CountAct P)
    (hshared : s'.shared = (s.shared.perform a).1) :
    s'.dashboard d = (s.dashboard d).publishAll (a.publishes d) := by
  rw [dashboard, hshared, (perform_publishes hd a).published, publishAll_append, dashboard]

theorem Reports.other (h : Reports d registered s) (i : Nat) : Reports d registered (s.other i) := by
  have htallied := h.tallied.other i
  unfold MetricsRun.other at htallied ⊢
  split
  · rename_i a rest hi
    rw [hi] at htallied
    have hmem : a :: rest ∈ s.threads := List.mem_of_getElem? hi
    have ha := h.tallied.counted _ (List.mem_cons_of_mem _ hmem) a List.mem_cons_self
    have hroutes := h.tallied.threads _ hmem a List.mem_cons_self
    have heffect := CountState.perform_effect h.tallied.attached ha
    refine ⟨htallied, (perform_publishes h.reaches a).reaches, fun id => ?_,
      h.reporting.congr rfl rfl rfl rfl ?_⟩
    · simp only
      rw [heffect.scriptStats]
      exact h.known id
    · rw [dashboard_perform h.reaches a rfl]
      exact publishAll_foreign (fun ev hev => CountAct.mem_of_publishes hroutes hev) _
  · exact h

theorem isSome_recordScriptInvocation (tel : Telemetry) (scriptId : Str) (durationNs : UInt64)
    (id : Str) : ((tel.recordScriptInvocation scriptId durationNs).scriptStats.lookup id).isSome
      = (tel.scriptStats.lookup id).isSome := by
  unfold Telemetry.recordScriptInvocation
  split
  · rfl
  · split
    · rfl
    · rename_i st hst
      by_cases hid : id = scriptId
      · subst hid
        simp only [AList.lookup_insert, hst, Option.isSome_some]
      · simp only [AList.lookup_insert_ne hid]

theorem isSome_packScriptMetrics (P : Nat) (tel : Telemetry) (timestampNs now : UInt64) (id : Str) :
    ((tel.packScriptMetrics P timestampNs now).2.scriptStats.lookup id).isSome
      = (tel.scriptStats.lookup id).isSome := by
  rw [Telemetry.packScriptMetrics, UMap.lookup_collect]
  cases tel.scriptStats.lookup id <;> rfl

theorem Reports.invoked (h : Reports d registered s) (scriptId : Str) (durationNs : UInt64) :
    Reports d registered (s.invoked scriptId durationNs) where
  tallied := h.tallied.invoked scriptId durationNs
  reaches := ⟨h.reaches.routed, h.reaches.handler, h.reaches.publisher⟩
  known id := by
    rw [← h.known id, ← isSome_recordScriptInvocation s.shared.tel scriptId durationNs id]
    rfl
  reporting := h.reporting.congr rfl rfl rfl rfl rfl

theorem OnTheWay.proceed {rest : List (Event P)} (h : s.OnTheWay d registered rest)
    (hd : ReachesDashboard d s.shared.router) {a : CountAct P} {as : List (CountAct P)}
    (hdoing : s.doing = a :: as) : (s.proceed a as).OnTheWay d registered rest := by
  obtain ⟨all, before, hsending, hpromise⟩ := h
  obtain ⟨-, -, htold, hcalls⟩ := proceed_frame s a as
  rw [hdoing] at hsending
  refine ⟨all, before, ?_, fun evs hevs => ?_⟩
  · rw [dashboard_perform hd a rfl]
    exact hsending.perform hd
  · rw [htold, hcalls]
    exact hpromise evs hevs

theorem Reports.proceed (h : Reports d registered s) {a : CountAct P} {as : List (CountAct P)}
    (hdoing : s.doing = a :: as) (htallied : Tallied Foreign (s.proceed a as)) :
    Reports d registered (s.proceed a as) := by
  have ha : a.Counted := by
    have hcounted := (List.forall_mem_cons.mp h.tallied.counted).1
    rw [hdoing] at hcounted
    exact hcounted a List.mem_cons_self
  have heffect := CountState.perform_effect h.tallied.attached ha
  obtain ⟨-, hphase, htold, hcalls⟩ := proceed_frame s a as
  refine ⟨htallied, (perform_publishes h.reaches a).reaches, fun id => ?_, ?_⟩
  · show ((s.shared.perform a).1.tel.scriptStats.lookup id).isSome ↔ _
    rw [heffect.scriptStats]
    exact h.known id
  · have hreporting := h.reporting
    have hdo := h.tallied.doing
    unfold Reporting at hreporting ⊢
    unfold Doing at hdo
    rw [hphase, htold, hcalls]
    cases hp : s.phase with
    | asleep =>
        rw [hp, hdoing] at hdo
        cases hdo
    | packing now =>
        rw [hp] at hreporting hdo
        have hquiet : a.publishes d = [] := by
          rw [hdoing] at hdo
          cases hdo <;> rfl
        have hdash : (s.proceed a as).dashboard d = s.dashboard d := by
          rw [dashboard_perform h.reaches a rfl, hquiet]
          rfl
        simp only [hdash]
        exact hreporting
    | streams now rest =>
        rw [hp] at hreporting
        exact ⟨hreporting.1.proceed h.reaches hdoing, hreporting.2⟩
    | scripts rest =>
        rw [hp] at hreporting
        exact OnTheWay.proceed hreporting h.reaches hdoing

/-- The next event of a round is routed. -/
theorem OnTheWay.next {ev : Event P} {rest : List (Event P)}
    (h : s.OnTheWay d registered (ev :: rest)) (hdoing : s.doing = []) (phase : MetricsPhase P) :
    OnTheWay d registered rest { s with phase, doing := [.call (.route ev)] } := by
  obtain ⟨all, before, hsending, hpromise⟩ := h
  rw [hdoing] at hsending
  exact ⟨all, before, hsending.next, hpromise⟩

/-- The last event of a round has arrived. -/
theorem OnTheWay.done (h : s.OnTheWay d registered []) (hdoing : s.doing = []) :
    UpToDate registered s.told s.toldCalls (s.dashboard d) := by
  obtain ⟨all, before, hsending, hpromise⟩ := h
  rw [hdoing] at hsending
  obtain ⟨evs, hep, hevs⟩ := hsending.done
  rw [hep]
  exact hpromise evs hevs

theorem Reports.emitMetrics (hP : 76 ≤ P) (hn : P < 36 + 40 * 2 ^ 16) (h : Reports d registered s)
    (now : UInt64) (hclear : s.clear (.metrics now) = true) : Reports d registered (s.emitMetrics now) := by
  have htallied := h.tallied.emitMetrics now
  have hreporting := h.reporting
  have hdo := h.tallied.doing
  unfold Reporting at hreporting
  unfold Doing at hdo
  unfold clear at hclear
  unfold MetricsRun.emitMetrics at htallied ⊢
  cases hdoing : s.doing with
  | cons a as =>
      rw [hdoing] at htallied
      exact h.proceed hdoing htallied
  | nil =>
      cases hphase : s.phase with
      | asleep =>
          simp only [hdoing, hphase] at htallied hreporting hclear ⊢
          simp only [Bool.and_eq_true, Option.all_eq_true, bne_iff_ne] at hclear
          exact ⟨htallied, h.reaches, h.known, hreporting, hclear⟩
      | packing stamp =>
          simp only [hdoing, hphase] at htallied hreporting hclear hdo ⊢
          simp only [Option.all_eq_true, decide_eq_true_iff] at hclear
          cases hdo with
          | @returned p hnow hlast hp =>
              simp only [hlast] at htallied ⊢
              refine ⟨htallied, h.reaches, h.known, ⟨_, s.dashboard d, .start
                (fun ev hev => stream_of_mem hev) _, fun evs hevs => ?_⟩, hreporting.2.2⟩
              rw [← hnow] at hevs
              exact hreporting.1.streams_arrived hP hn hp (hclear p hlast)
                (fun q hq => hnow ▸ hreporting.2.1 q hq) hevs
      | streams stamp evs =>
          cases evs with
          | nil =>
              simp only [hdoing, hphase] at htallied hreporting hclear ⊢
              have hdone := hreporting.1.done hdoing
              refine ⟨htallied, ⟨h.reaches.routed, h.reaches.handler, h.reaches.publisher⟩,
                fun id => ?_, _, s.dashboard d, .start (fun ev hev => stream_of_mem hev) _,
                fun evs hevs => ?_⟩
              · rw [← h.known id, ← isSome_packScriptMetrics P s.shared.tel stamp stamp id]
                rfl
              · exact hdone.scripts_arrived hP hn h.tallied.stats h.known (of_decide_eq_true hclear)
                  hreporting.2 hevs
          | cons ev evs =>
              simp only [hdoing, hphase] at htallied hreporting ⊢
              exact ⟨htallied, h.reaches, h.known, hreporting.1.next hdoing _, hreporting.2⟩
      | scripts evs =>
          cases evs with
          | nil =>
              simp only [hdoing, hphase] at htallied hreporting ⊢
              exact ⟨htallied, h.reaches, h.known, OnTheWay.done (s := s) hreporting hdoing⟩
          | cons ev evs =>
              simp only [hdoing, hphase] at htallied hreporting ⊢
              exact ⟨htallied, h.reaches, h.known, OnTheWay.next (s := s) hreporting hdoing _⟩

theorem Reports.step (hP : 76 ≤ P) (hn : P < 36 + 40 * 2 ^ 16) (s : MetricsRun P) (t : MetricsTurn)
    (h : Reports d registered s) (hclear : s.clear t = true) : Reports d registered (s.step t) := by
  cases t with
  | other i => exact h.other i
  | invoked scriptId durationNs => exact h.invoked scriptId durationNs
  | metrics now => exact h.emitMetrics hP hn now hclear

end Steps

/-! ## What the periods count -/

/-- Everything the threads still have to do. -/
def acts (s : MetricsRun P) : Multiset (CountAct P) :=
  (s.doing : Multiset (CountAct P)) + (s.threads.flatten : Multiset (CountAct P))

/-- The events of its round that the metrics thread has still to route. -/
def toRoute (s : MetricsRun P) : List (Event P) :=
  match s.phase with
  | .streams _ rest | .scripts rest => rest
  | _ => []

/-- The logs hold what was routed, the metrics included, and what was delivered since `r`, and the
periods are stretches of them. -/
structure Accounted (r : StreamRouter P) (routed : Multiset Str) (s : MetricsRun P) : Prop where
  own : ∀ ev ∈ s.toRoute, ev.stream = lit "telemetry"
  logged : ∃ n, Logged r (routed + Multiset.replicate n (lit "telemetry")) s.shared s.acts
  draft : s.draft.Within s.shared
  told : ∀ q, s.told = some q → q.Within s.shared

section Accounts
variable {r : StreamRouter P} {routed : Multiset Str} {s : MetricsRun P}

theorem Accounted.other {p : Event P → Prop} (h : Accounted r routed s) (htallied : Tallied p s)
    (i : Nat) : Accounted r routed (s.other i) := by
  unfold MetricsRun.other
  split
  · rename_i a rest hi
    have hmem : a :: rest ∈ s.threads := List.mem_of_getElem? hi
    have ha := htallied.counted _ (List.mem_cons_of_mem _ hmem) a List.mem_cons_self
    obtain ⟨hrecorded, hdelivered⟩ := (CountState.perform_effect htallied.attached ha).grows
    obtain ⟨n, hlogged⟩ := h.logged
    obtain ⟨K, hbefore, hafter⟩ := flatten_set_bag hi
    have hold : s.acts = {a} + ((s.doing : Multiset (CountAct P)) + (rest + K)) := by
      rw [acts, hbefore, ← Multiset.cons_coe, ← Multiset.singleton_add]
      ac_rfl
    rw [hold] at hlogged
    refine ⟨h.own, ⟨n, ?_⟩, h.draft.mono hrecorded hdelivered,
      fun q hq => (h.told q hq).mono hrecorded hdelivered⟩
    rw [acts]
    dsimp only
    rw [hafter, ← Multiset.coe_add]
    have hnew := hlogged.perform
    rw [add_left_comm, ← add_assoc _ _ K, add_comm _ K] at hnew
    exact hnew
  · exact h

/-- What a drain notes is a stretch of the logs. -/
theorem note_within (h : s.draft.Within s.shared) (a : CountAct P) :
    (s.note a).draft.Within s.shared := by
  cases a with
  | call call =>
      cases call with
      | route ev => exact h
      | pack now => exact ⟨(List.drop_suffix _ _).isInfix, List.nil_infix⟩
  | packEmitted _ _ => exact ⟨h.recorded, (List.drop_suffix _ _).isInfix⟩
  | packDrops _ _ _ => exact ⟨h.recorded, h.delivered⟩
  | recordEvent _ | insertEvent _ | push _ | recordDrop | write _ | targets _ | target _ _
  | publish _ _ | recordEmitted _ | insertEmitted _ => exact h

theorem Accounted.proceed {p : Event P → Prop} (h : Accounted r routed s) (htallied : Tallied p s)
    {a : CountAct P} {rest : List (CountAct P)} (hdoing : s.doing = a :: rest) :
    Accounted r routed (s.proceed a rest) := by
  have hcounted := (List.forall_mem_cons.mp htallied.counted).1
  rw [hdoing] at hcounted
  obtain ⟨hrecorded, hdelivered⟩ :=
    (CountState.perform_effect htallied.attached (hcounted a List.mem_cons_self)).grows
  obtain ⟨-, hphase, htold, -⟩ := proceed_frame s a rest
  obtain ⟨n, hlogged⟩ := h.logged
  have hold : s.acts = {a} + ((rest : Multiset (CountAct P)) + s.threads.flatten) := by
    rw [acts, hdoing, ← Multiset.cons_coe, ← Multiset.singleton_add, add_assoc]
  rw [hold] at hlogged
  have hthreads : (s.proceed a rest).threads = s.threads := by
    cases a with
    | call call => cases call <;> rfl
    | _ => rfl
  refine ⟨?_, ⟨n, ?_⟩, (note_within h.draft a).mono hrecorded hdelivered, fun q hq => ?_⟩
  · unfold toRoute
    rw [hphase]
    exact h.own
  · rw [acts, hthreads]
    show Logged r _ (s.shared.perform a).1 ((((s.shared.perform a).2 ++ rest : List (CountAct P)) :
      Multiset (CountAct P)) + s.threads.flatten)
    rw [← Multiset.coe_add, add_assoc]
    exact hlogged.perform
  · rw [htold] at hq
    exact (h.told q hq).mono hrecorded hdelivered

theorem Accounted.emitMetrics {p : Event P → Prop} (h : Accounted r routed s)
    (htallied : Tallied p s) (now : UInt64) : Accounted r routed (s.emitMetrics now) := by
  obtain ⟨n, hlogged⟩ := h.logged
  have hown := h.own
  unfold toRoute at hown
  unfold MetricsRun.emitMetrics
  cases hdoing : s.doing with
  | cons a rest => exact h.proceed htallied hdoing
  | nil =>
      rw [acts, hdoing] at hlogged
      have hroute (phase : MetricsPhase P) (ev : Event P) (hev : ev.stream = lit "telemetry") :
          ∃ n, Logged r (routed + Multiset.replicate n (lit "telemetry")) s.shared
            (MetricsRun.acts { s with phase, doing := [.call (.route ev)] }) := by
        have hnew := hlogged.route ev
        rw [hev, add_assoc, ← Multiset.replicate_one, ← Multiset.replicate_add] at hnew
        exact ⟨n + 1, hnew⟩
      cases hphase : s.phase with
      | asleep =>
          exact ⟨List.forall_mem_nil _,
            ⟨n, hlogged.telemetry, hlogged.delivered, hlogged.recorded⟩, h.draft, h.told⟩
      | packing stamp =>
          simp only
          cases s.shared.packs.getLast? with
          | none => exact h
          | some p =>
              refine ⟨fun ev hev => stream_of_mem hev, ⟨n, hlogged⟩, h.draft, fun q hq => ?_⟩
              simp only at hq
              split at hq
              · rw [← Option.some.inj hq]
                exact h.draft
              · exact h.told q hq
      | streams stamp evs =>
          rw [hphase] at hown
          cases evs with
          | nil =>
              exact ⟨fun ev hev => stream_of_mem hev, ⟨n, hlogged.setTel _⟩,
                ⟨h.draft.recorded, h.draft.delivered⟩,
                fun q hq => ⟨(h.told q hq).recorded, (h.told q hq).delivered⟩⟩
          | cons ev evs =>
              obtain ⟨hev, hevs⟩ := List.forall_mem_cons.mp hown
              exact ⟨hevs, hroute _ ev hev, h.draft, h.told⟩
      | scripts evs =>
          rw [hphase] at hown
          cases evs with
          | nil => exact ⟨List.forall_mem_nil _, ⟨n, hlogged⟩, h.draft, h.told⟩
          | cons ev evs =>
              obtain ⟨hev, hevs⟩ := List.forall_mem_cons.mp hown
              exact ⟨hevs, hroute _ ev hev, h.draft, h.told⟩

theorem Accounted.step {p : Event P → Prop} (h : Accounted r routed s) (htallied : Tallied p s)
    (t : MetricsTurn) : Accounted r routed (s.step t) := by
  cases t with
  | other i => exact h.other htallied i
  | invoked scriptId durationNs =>
      obtain ⟨n, hlogged⟩ := h.logged
      exact ⟨h.own, ⟨n, hlogged.setTel _⟩, ⟨h.draft.recorded, h.draft.delivered⟩,
        fun q hq => ⟨(h.told q hq).recorded, (h.told q hq).delivered⟩⟩
  | metrics now => exact h.emitMetrics htallied now

end Accounts

end MetricsRun

end Mawmaw.Server
