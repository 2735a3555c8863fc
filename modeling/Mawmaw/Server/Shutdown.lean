import Mathlib.Data.List.FinRange
import Mawmaw.Lib.Shutdown
import Mawmaw.Server.Accounting

/-!
# Stopping a pipeline

The threads of a started pipeline while `stop_pipeline` ends them: each script thread, the thread of
each plugin (it stops as that of `dummy_ingestor` does) and the telemetry thread.

* `Phase`, `threadStep`, `threadUses` : where a thread is, its next step, and which part of the pipeline
  this touches;
* `stopPipeline` : what `stop_pipeline` does, operation by operation; `wellOrdered`;
* `told_lowers` : a thread that was told to end comes closer to its end;
* `stop_pipeline_uses_live`, `stop_pipeline_returns`.
-/

namespace Mawmaw.Server
open Mawmaw.Lib Mawmaw.Conf Mawmaw.Core Mawmaw.Pub

variable {P m n : Nat}

/-! ## The threads -/

inductive PipelineThread (m n : Nat)
  | script (i : Fin m)
  | ingestor (j : Fin n)
  | telemetry
  deriving DecidableEq

/-- What the threads use and `stop_pipeline` frees. -/
inductive Part (n : Nat)
  | router
  | publisher
  | registry
  | telemetry
  | plugin (j : Fin n)
  deriving DecidableEq

/-- Where a call of `route` is. `count` knows whether it has got a telemetry; `targets` still has these
targets to go to. -/
inductive RoutePoint
  | load
  | count (tel : Bool)
  | push
  | find
  | targets (ids : List Str)

/-- Where a thread is. `test`: the condition of its loop; `fetch`: `wait_for_trigger`, the plugin making
an event, or the sleep of the telemetry; `view`, `invoke`, `finish` and `record`: a script's dispatch;
`pack false` and `pack true`: the stream and the script metrics; `route`: a call of `route`, the events
to route after it, and whether the script metrics come next. -/
inductive Phase (P : Nat)
  | test
  | fetch
  | view (ev : Event P)
  | invoke (ev : Event P)
  | finish (evs : List (Event P))
  | record (evs : List (Event P))
  | pack (scripts : Bool)
  | route (point : RoutePoint) (ev : Event P) (more : List (Event P)) (packs : Bool)
  | ended

def Phase.isEnded : Phase P → Bool
  | .ended => true
  | _ => false

theorem Phase.eq_ended {c : Phase P} (h : c.isEnded = true) : c = .ended := by
  cases c with
  | ended => rfl
  | _ => cases h

/-- What a thread gets from elsewhere: `g_running`, whether its queue has an event, an event, and the
events a script returns or the metrics fill. -/
structure Reading (P : Nat) where
  running : Bool := true
  available : Bool := true
  event : Event P := {}
  events : List (Event P) := []

/-- The first of the events, or what comes after them. -/
def routeNext (evs : List (Event P)) (packs : Bool) : Phase P :=
  match evs with
  | [] => if packs then .pack true else .test
  | ev :: more => .route .load ev more packs

def routeStep (c : Wiring P) (attached : Bool) (ev : Event P) (more : List (Event P)) (packs : Bool) :
    RoutePoint → Phase P
  | .load => .route (.count attached) ev more packs
  | .count _ => .route .push ev more packs
  | .push => .route .find ev more packs
  | .find => .route (.targets (UMap.getD c.routeTable ev.stream [])) ev more packs
  | .targets (_ :: ids) => .route (.targets ids) ev more packs
  | .targets [] => routeNext more packs

/-- The overflow signal of `push` goes through the registry's own pointer to the telemetry, and so does
the publisher's count; `set_telemetry(nullptr)` on the router leaves both. -/
def routeUses (c : Wiring P) : RoutePoint → List (Part n)
  | .load | .find => [.router]
  | .count tel => if tel then [.telemetry] else []
  | .push => [.registry, .telemetry]
  | .targets [] => []
  | .targets (id :: _) =>
    match c.handlers.lookup id with
    | some _ => [.router]
    | none => if c.hasEndpoint id then [.router, .publisher, .telemetry] else [.router, .publisher]

/-- The object a thread runs in. -/
def PipelineThread.own : PipelineThread m n → List (Part n)
  | .script _ => []
  | .ingestor j => [.plugin j]
  | .telemetry => [.telemetry]

/-- Whether the thread waits for this queue. -/
def PipelineThread.waitsOn (q : Nat) : PipelineThread m n → Bool
  | .script i => i.val == q
  | _ => false

section Pipeline
variable (p : PipelineState P)

/-- The threads of a started pipeline. -/
abbrev ThreadOf := PipelineThread p.scriptData.length p.plugins.length

abbrev PartOf := Part p.plugins.length

/-- The name its events are given. -/
def renameTo : ThreadOf p → Str
  | .script i => (p.scriptData.get i).outputStream
  | .ingestor j => (p.plugins.get j).renameTo
  | .telemetry => []

def threadStep (t : ThreadOf p) (told attached : Bool) (x : Reading P) : Phase P → Phase P
  | .test =>
    match t with
    | .script _ => if x.running then .fetch else .ended
    | .ingestor _ | .telemetry => if told then .ended else .fetch
  | .fetch =>
    match t with
    | .script _ => if told then .ended else if x.available then .view x.event else .fetch
    | .ingestor _ => routeNext [rename (renameTo p t) x.event] false
    | .telemetry => .pack false
  | .view ev => .invoke ev
  | .invoke _ => .finish (x.events.map (rename (renameTo p t)))
  | .finish evs => .record evs
  | .record evs => routeNext evs false
  | .pack false => routeNext x.events true
  | .pack true => routeNext x.events false
  | .route point ev more packs => routeStep (wiring p.router) attached ev more packs point
  | .ended => .ended

def threadUses (t : ThreadOf p) : Phase P → List (PartOf p)
  | .test => t.own
  | .fetch =>
    match t with
    | .script _ => [.router]
    | .ingestor _ | .telemetry => t.own
  | .view _ | .invoke _ | .finish _ => [.registry]
  | .record _ | .pack _ => [.telemetry]
  | .route point _ _ _ => t.own ++ routeUses (wiring p.router) point
  | .ended => []

/-- What the threads share is whether the router has a telemetry. -/
def threads : Threads (ThreadOf p) (PartOf p) Bool (Reading P) (Phase P) where
  step := threadStep p
  uses := threadUses p
  ended := Phase.isEnded

/-- The destructor of a `PluginHandle`: `stop` ends and joins the plugin's thread. -/
def destroyPlugin (j : Fin p.plugins.length) : List (StopOp (ThreadOf p) (PartOf p) Bool) :=
  [.flag [.plugin j] (· == .ingestor j), .join (.ingestor j), .free (.plugin j)]

/-- `stop_pipeline`: the router loses its telemetry; the plugins are destroyed; the telemetry is stopped
and joined; all queues are stopped; the script threads are joined; what is left is freed. -/
def stopPipeline : List (StopOp (ThreadOf p) (PartOf p) Bool) :=
  [.touch [.router] fun _ => false]
  ++ (List.finRange p.plugins.length).flatMap (destroyPlugin p)
  ++ [.flag [.telemetry] (· == .telemetry), .join .telemetry]
  ++ ((List.range p.router.queues.length).map fun q => .flag [.router] (PipelineThread.waitsOn q))
  ++ ((List.finRange p.scriptData.length).map fun i => .join (.script i))
  ++ [.free .telemetry, .free .registry, .free .router, .free .publisher]

/-- Every thread is in its loop when `stop_pipeline` is called. -/
def beginStop : Stopping (ThreadOf p) (PartOf p) Bool (Phase P) :=
  .begin true (fun _ => .test) (stopPipeline p)

end Pipeline

variable {p : PipelineState P}

/-! ## The order of `stop_pipeline` -/

theorem plugin_not_mem_routeUses (c : Wiring P) (point : RoutePoint) (j : Fin n) :
    Part.plugin j ∉ routeUses c point := by
  unfold routeUses
  split
  · simp
  · simp
  · split <;> simp
  · simp
  · simp
  · split
    · simp
    · split <;> simp

theorem own_plugin {t : PipelineThread m n} {j : Fin n} (h : .plugin j ∈ t.own) : t = .ingestor j := by
  cases t with
  | script i => exact absurd h List.not_mem_nil
  | ingestor j' => rw [Part.plugin.inj (List.mem_singleton.mp h)]
  | telemetry => cases List.mem_singleton.mp h

/-- A plugin is used by its own thread only. -/
theorem uses_plugin {t : ThreadOf p} {j : Fin p.plugins.length} {c : Phase P}
    (h : .plugin j ∈ (threads p).uses t c) : t = .ingestor j := by
  have h : Part.plugin j ∈ threadUses p t c := h
  cases c with
  | test => exact own_plugin h
  | fetch =>
      cases t with
      | script i => cases List.mem_singleton.mp h
      | ingestor _ | telemetry => exact own_plugin h
  | view | invoke | finish | record | pack => cases List.mem_singleton.mp h
  | route point =>
      rcases List.mem_append.mp h with hown | hroute
      · exact own_plugin hown
      · exact absurd hroute (plugin_not_mem_routeUses _ point j)
  | ended => exact absurd h List.not_mem_nil

theorem join_mem_stopPipeline (t : ThreadOf p) : .join t ∈ stopPipeline p := by
  unfold stopPipeline
  simp only [List.mem_append, List.mem_flatMap, List.mem_map]
  cases t with
  | script i => exact Or.inl (Or.inr ⟨i, List.mem_finRange i, rfl⟩)
  | ingestor j =>
      exact Or.inl (Or.inl (Or.inl (Or.inl (Or.inr ⟨j, List.mem_finRange j, by simp [destroyPlugin]⟩))))
  | telemetry => exact Or.inl (Or.inl (Or.inl (Or.inr (by simp))))

/-- Each thread is told: a script thread through the queue it waits for. -/
theorem flag_mem_stopPipeline (hqueues : p.router.queues.length = p.scriptData.length)
    (t : ThreadOf p) : ∃ ks who, .flag ks who ∈ stopPipeline p ∧ who t = true := by
  unfold stopPipeline
  simp only [List.mem_append, List.mem_flatMap, List.mem_map]
  cases t with
  | script i =>
      refine ⟨[.router], PipelineThread.waitsOn i.val,
        Or.inl (Or.inl (Or.inr ⟨i.val, ?_, rfl⟩)), ?_⟩
      · rw [List.mem_range, hqueues]
        exact i.isLt
      · exact beq_self_eq_true _
  | ingestor j =>
      exact ⟨[.plugin j], (· == .ingestor j),
        Or.inl (Or.inl (Or.inl (Or.inl (Or.inr ⟨j, List.mem_finRange j, by simp [destroyPlugin]⟩)))),
        beq_self_eq_true _⟩
  | telemetry =>
      exact ⟨[.telemetry], (· == .telemetry), Or.inl (Or.inl (Or.inl (Or.inr (by simp)))),
        beq_self_eq_true _⟩

/-- Nothing that is left of a program concerns plugin `j`. -/
structure Spares (j : Fin p.plugins.length) (b : StopOp (ThreadOf p) (PartOf p) Bool) : Prop where
  flag : ∀ ks who, b = .flag ks who → who (.ingestor j) = false
  uses : .plugin j ∉ b.uses
  join : b ≠ .join (.ingestor j)

namespace Spares
variable {j : Fin p.plugins.length}

theorem of_flag {ks : List (PartOf p)} {who : ThreadOf p → Bool} (hwho : who (.ingestor j) = false)
    (hks : .plugin j ∉ ks) : Spares j (.flag ks who) where
  flag _ _ heq := by
    obtain ⟨-, rfl⟩ := StopOp.flag.inj heq
    exact hwho
  uses := hks
  join heq := by cases heq

theorem of_join {t : ThreadOf p} (h : t ≠ .ingestor j) : Spares j (.join t) where
  flag _ _ heq := by cases heq
  uses := List.not_mem_nil
  join heq := h (StopOp.join.inj heq)

theorem of_free {k : PartOf p} (h : .plugin j ≠ k) : Spares j (.free k) where
  flag _ _ heq := by cases heq
  uses hmem := h (List.mem_singleton.mp hmem)
  join heq := by cases heq

end Spares

theorem mayPrecede_destroyPlugin {j : Fin p.plugins.length} {a b : StopOp (ThreadOf p) (PartOf p) Bool}
    (ha : a ∈ destroyPlugin p j) (hb : Spares j b) : MayPrecede (threads p) a b := by
  rcases List.mem_cons.mp ha with rfl | ha
  · exact .flag
  · rcases List.mem_cons.mp ha with rfl | ha
    · exact .join hb.flag
    · obtain rfl := List.mem_singleton.mp ha
      refine .free hb.uses fun t c hjoin huse => hb.join ?_
      rw [hjoin, uses_plugin huse]

theorem spares_destroyPlugin {j j' : Fin p.plugins.length} (hne : j ≠ j')
    {b : StopOp (ThreadOf p) (PartOf p) Bool} (hb : b ∈ destroyPlugin p j') : Spares j b := by
  have hthread : (.ingestor j : ThreadOf p) ≠ .ingestor j' :=
    fun heq => hne (PipelineThread.ingestor.inj heq)
  have hpart : (.plugin j : PartOf p) ≠ .plugin j' := fun heq => hne (Part.plugin.inj heq)
  rcases List.mem_cons.mp hb with rfl | hb
  · exact .of_flag (beq_false_of_ne hthread) fun hmem => hpart (List.mem_singleton.mp hmem)
  · rcases List.mem_cons.mp hb with rfl | hb
    · exact .of_join hthread.symm
    · obtain rfl := List.mem_singleton.mp hb
      exact .of_free hpart

theorem pairwise_destroyPlugin (j : Fin p.plugins.length) :
    (destroyPlugin p j).Pairwise (MayPrecede (threads p)) := by
  unfold destroyPlugin
  refine List.pairwise_cons.mpr ⟨fun b _ => .flag, List.pairwise_cons.mpr ⟨fun b hb => ?_,
    List.pairwise_singleton _ _⟩⟩
  obtain rfl := List.mem_singleton.mp hb
  exact .join fun ks who heq => by cases heq

/-- `stop_pipeline` after the plugins. -/
def stopOthers (p : PipelineState P) : List (StopOp (ThreadOf p) (PartOf p) Bool) :=
  [.flag [.telemetry] (· == .telemetry), .join .telemetry]
  ++ (((List.range p.router.queues.length).map fun q => .flag [.router] (PipelineThread.waitsOn q))
  ++ (((List.finRange p.scriptData.length).map fun i => .join (.script i))
  ++ [.free .telemetry, .free .registry, .free .router, .free .publisher]))

theorem stopPipeline_eq (p : PipelineState P) : stopPipeline p
    = [.touch [.router] fun _ => false]
      ++ ((List.finRange p.plugins.length).flatMap (destroyPlugin p) ++ stopOthers p) := by
  unfold stopPipeline stopOthers
  simp only [List.append_assoc]

theorem spares_stopOthers {j : Fin p.plugins.length} {b : StopOp (ThreadOf p) (PartOf p) Bool}
    (hb : b ∈ stopOthers p) : Spares j b := by
  unfold stopOthers at hb
  simp only [List.mem_append, List.mem_map, List.mem_cons, List.not_mem_nil, or_false] at hb
  rcases hb with (rfl | rfl) | ⟨q, -, rfl⟩ | ⟨i, -, rfl⟩ | rfl | rfl | rfl | rfl
  · exact .of_flag rfl (by simp)
  · exact .of_join (by simp)
  · exact .of_flag rfl (by simp)
  · exact .of_join (by simp)
  all_goals exact .of_free (by simp)

/-- The queues are told to stop before a script thread is waited for. -/
theorem join_mayPrecede {t : ThreadOf p} {b : StopOp (ThreadOf p) (PartOf p) Bool}
    (hb : b ∈ ((List.finRange p.scriptData.length).map fun i => .join (.script i))
      ++ [.free .telemetry, .free .registry, .free .router, .free .publisher]) :
    MayPrecede (threads p) (.join t) b := by
  refine .join fun ks who heq => ?_
  subst heq
  simp at hb

theorem free_mayPrecede {k k' : PartOf p} (hne : k ≠ k') :
    MayPrecede (threads p) (.free k) (.free k') :=
  .free (fun hmem => hne (List.mem_singleton.mp hmem)) fun _ _ heq => by cases heq

theorem order_stopOthers : (stopOthers p).Pairwise (MayPrecede (threads p)) := by
  unfold stopOthers
  rw [List.pairwise_append, List.pairwise_append, List.pairwise_append]
  refine ⟨?_, ⟨?_, ⟨?_, ?_, ?_⟩, ?_⟩, ?_⟩
  · refine List.pairwise_pair.mpr .flag
  · exact List.pairwise_map.mpr (List.pairwise_of_forall fun q q' => .flag)
  · refine List.pairwise_map.mpr (List.pairwise_of_forall fun i i' => ?_)
    exact .join fun ks who heq => by cases heq
  · simp only [List.pairwise_cons, List.mem_cons, List.not_mem_nil, or_false]
    refine ⟨?_, ?_, ?_, ?_, ?_⟩
    · rintro b (rfl | rfl | rfl) <;> exact free_mayPrecede (by simp)
    · rintro b (rfl | rfl) <;> exact free_mayPrecede (by simp)
    · rintro b rfl
      exact free_mayPrecede (by simp)
    · simp
    · exact List.Pairwise.nil
  · intro a ha b hb
    obtain ⟨i, -, rfl⟩ := List.mem_map.mp ha
    exact join_mayPrecede (List.mem_append_right _ hb)
  · intro a ha b hb
    obtain ⟨q, -, rfl⟩ := List.mem_map.mp ha
    exact .flag
  · intro a ha b hb
    rcases List.mem_cons.mp ha with rfl | ha
    · exact .flag
    · obtain rfl := List.mem_singleton.mp ha
      rcases List.mem_append.mp hb with hflag | hrest
      · obtain ⟨q, -, rfl⟩ := List.mem_map.mp hflag
        refine .join fun ks who heq => ?_
        obtain ⟨-, rfl⟩ := StopOp.flag.inj heq
        rfl
      · exact join_mayPrecede hrest

theorem order_stopPipeline : (stopPipeline p).Pairwise (MayPrecede (threads p)) := by
  rw [stopPipeline_eq, List.singleton_append, List.pairwise_cons, List.pairwise_append,
    List.pairwise_flatMap]
  refine ⟨fun b _ => .touch, ⟨fun j _ => pairwise_destroyPlugin j, ?_⟩, order_stopOthers, ?_⟩
  · refine (List.nodup_finRange _).imp fun hne a ha b hb => ?_
    exact mayPrecede_destroyPlugin ha (spares_destroyPlugin hne hb)
  · intro a ha b hb
    obtain ⟨j, -, ha⟩ := List.mem_flatMap.mp ha
    exact mayPrecede_destroyPlugin ha (spares_stopOthers hb)

theorem wellOrdered (hqueues : p.router.queues.length = p.scriptData.length) :
    WellOrdered (threads p) (fun _ => .test) (stopPipeline p) where
  order := order_stopPipeline
  told t _ := flag_mem_stopPipeline hqueues t
  awaited _ t _ _ _ _ := join_mem_stopPipeline t

/-! ## Threads that were told to end -/

/-- The way to the end, from `fetch` of a plugin's or the telemetry's thread down. -/
def stage (t : ThreadOf p) : Phase P → Nat
  | .ended => 0
  | .test => 2
  | .fetch =>
    match t with
    | .script _ => 1
    | .ingestor _ | .telemetry => 8
  | .route _ _ _ false => 3
  | .record _ | .pack true => 4
  | .finish _ | .route _ _ _ true => 5
  | .invoke _ | .pack false => 6
  | .view _ => 7

/-- The turns a call of `route` still takes. -/
def routeWork (c : Wiring P) (ev : Event P) : RoutePoint → Nat
  | .targets ids => ids.length + 1
  | .find => (UMap.getD c.routeTable ev.stream []).length + 2
  | .push => (UMap.getD c.routeTable ev.stream []).length + 3
  | .count _ => (UMap.getD c.routeTable ev.stream []).length + 4
  | .load => (UMap.getD c.routeTable ev.stream []).length + 5

def work (c : Wiring P) : Phase P → Nat
  | .route point ev more _ => routeWork c ev point + (more.map fun e => routeWork c e .load).sum
  | _ => 0

def rank (p : PipelineState P) (t : ThreadOf p) (c : Phase P) : Nat ×ₗ Nat :=
  toLex (stage t c, work (wiring p.router) c)

theorem rank_lt_of_stage {t : ThreadOf p} {c c' : Phase P} (h : stage t c' < stage t c) :
    rank p t c' < rank p t c := Prod.Lex.toLex_lt_toLex.mpr (Or.inl h)

theorem rank_lt_of_work {t : ThreadOf p} {c c' : Phase P} (hstage : stage t c' = stage t c)
    (h : work (wiring p.router) c' < work (wiring p.router) c) : rank p t c' < rank p t c :=
  Prod.Lex.toLex_lt_toLex.mpr (Or.inr ⟨hstage, h⟩)

theorem stage_routeNext_le (t : ThreadOf p) (evs : List (Event P)) (packs : Bool) :
    stage t (routeNext evs packs) ≤ if packs then 5 else 3 := by
  unfold routeNext
  cases evs with
  | nil =>
      cases packs with
      | false => exact (by decide : 2 ≤ 3)
      | true => exact (by decide : 4 ≤ 5)
  | cons ev more => cases packs <;> exact Nat.le_refl _

theorem rank_routeStep (t : ThreadOf p) (attached : Bool) (ev : Event P) (more : List (Event P))
    (packs : Bool) (point : RoutePoint) :
    rank p t (routeStep (wiring p.router) attached ev more packs point)
      < rank p t (.route point ev more packs) := by
  have hinside : ∀ point', routeWork (wiring p.router) ev point' < routeWork (wiring p.router) ev point →
      rank p t (.route point' ev more packs) < rank p t (.route point ev more packs) := by
    intro point' hlt
    refine rank_lt_of_work (by cases packs <;> rfl) ?_
    exact Nat.add_lt_add_right hlt _
  cases point with
  | load | count | push | find => exact hinside _ (by simp only [routeWork]; omega)
  | targets ids =>
      cases ids with
      | cons id ids => exact hinside _ (by simp only [routeWork, List.length_cons]; omega)
      | nil =>
          show rank p t (routeNext more packs) < _
          cases more with
          | nil =>
              refine rank_lt_of_stage ?_
              cases packs with
              | false => exact (by decide : 2 < 3)
              | true => exact (by decide : 4 < 5)
          | cons ev' more =>
              refine rank_lt_of_work (by cases packs <;> rfl) ?_
              show routeWork _ ev' .load + _ < 0 + 1 + (List.sum _)
              rw [List.map_cons, List.sum_cons]
              omega

/-- **One turn of a thread that was told to end** leads closer to its end. -/
theorem told_lowers (t : ThreadOf p) (attached : Bool) (x : Reading P) {c : Phase P}
    (hend : c.isEnded = false) :
    (threadStep p t true attached x c).isEnded = true ∨
      rank p t (threadStep p t true attached x c) < rank p t c := by
  have hnext : ∀ (evs : List (Event P)) (packs : Bool) (c : Phase P),
      (if packs then 5 else 3) < stage t c → rank p t (routeNext evs packs) < rank p t c :=
    fun evs packs c hlt => rank_lt_of_stage (Nat.lt_of_le_of_lt (stage_routeNext_le t evs packs) hlt)
  cases c with
  | test =>
      cases t with
      | script i =>
          cases hrun : x.running with
          | false => exact Or.inl (by simp [threadStep, hrun, Phase.isEnded])
          | true =>
              refine Or.inr ?_
              simp only [threadStep, hrun, if_true]
              exact rank_lt_of_stage (by decide : 1 < 2)
      | ingestor _ | telemetry => exact Or.inl rfl
  | fetch =>
      cases t with
      | script i => exact Or.inl rfl
      | ingestor j =>
          exact Or.inr (hnext [rename (renameTo p (.ingestor j)) x.event] false .fetch
            (by decide : 3 < 8))
      | telemetry => exact Or.inr (rank_lt_of_stage (by decide : 6 < 8))
  | view ev => exact Or.inr (rank_lt_of_stage (by decide : 6 < 7))
  | invoke ev => exact Or.inr (rank_lt_of_stage (by decide : 5 < 6))
  | finish evs => exact Or.inr (rank_lt_of_stage (by decide : 4 < 5))
  | record evs => exact Or.inr (hnext evs false _ (by decide : 3 < 4))
  | pack scripts =>
      cases scripts with
      | false => exact Or.inr (hnext x.events true _ (by decide : 5 < 6))
      | true => exact Or.inr (hnext x.events false _ (by decide : 3 < 4))
  | route point ev more packs => exact Or.inr (rank_routeStep t attached ev more packs point)
  | ended => cases hend

theorem threads_stop (p : PipelineState P) : (threads p).Stop (rank p) where
  uses_nil t c hend := by
    obtain rfl := Phase.eq_ended hend
    rfl
  stays t told attached x c hend := by
    obtain rfl := Phase.eq_ended hend
    rfl
  lowers t attached x c hend := told_lowers t attached x hend

/-! ## What `stop_pipeline` guarantees -/

variable {env : Environment P} {cfg : Config}

/-- **No use after free.** However the turns of `stop_pipeline` and of the pipeline's threads
interleave, no turn uses a part of the pipeline that has been freed. -/
theorem stop_pipeline_uses_live (h : startPipeline env cfg = .ok p)
    (turns : List (StopTurn (ThreadOf p) (Reading P))) :
    Along (Stopping.step (threads p)) (Stopping.UsesLive (threads p)) (beginStop p) turns :=
  Stopping.uses_live (threads_stop p) (wellOrdered (startPipeline_started h).queues) true turns

def forkedScript : Fin forkedState.scriptData.length := ⟨0, by decide +kernel⟩

def forkedPlugin : Fin forkedState.plugins.length := ⟨0, by decide +kernel⟩

/-- `stop_pipeline` with the threads' turns in between: the telemetry packs and routes while the plugin
is stopped, then everything is freed. -/
def stopTurns : List (StopTurn (ThreadOf forkedState) (Reading 1)) :=
  List.flatten [
    [.thread .telemetry {}, .main, .thread .telemetry {}, .main, .thread .telemetry { events := [{}] }],
    List.replicate 2 (.thread (.ingestor forkedPlugin) {}), List.replicate 3 .main,
    List.replicate 20 (.thread .telemetry {}), List.replicate 2 .main,
    List.replicate 8 (.thread (.script forkedScript) {}), List.replicate 5 .main]

/-- The run frees every part. -/
theorem stop_pipeline_uses_live_forked :
    Along (Stopping.step (threads forkedState)) (Stopping.UsesLive (threads forkedState))
        (beginStop forkedState) stopTurns ∧
      (stopTurns.foldl (Stopping.step (threads forkedState)) (beginStop forkedState)).past.filterMap
        StopOp.freed = [.plugin forkedPlugin, .telemetry, .registry, .router, .publisher] := by
  refine ⟨stop_pipeline_uses_live startPipeline_forked _, ?_⟩
  decide +kernel

/-- What a program frees, in order. -/
def freedBy (prog : List (StopOp (ThreadOf p) (PartOf p) Bool)) : List (PartOf p) :=
  prog.filterMap StopOp.freed

theorem freedBy_stopPipeline (p : PipelineState P) : freedBy (stopPipeline p)
    = (List.finRange p.plugins.length).map .plugin ++ [.telemetry, .registry, .router, .publisher] := by
  have hplugins : ((List.finRange p.plugins.length).flatMap (destroyPlugin p)).filterMap StopOp.freed
      = (List.finRange p.plugins.length).map .plugin := by
    rw [List.filterMap_flatMap, List.map_eq_flatMap]
    rfl
  have hothers : (stopOthers p).filterMap StopOp.freed
      = [.telemetry, .registry, .router, .publisher] := by
    have hqueues : ∀ qs : List Nat, (qs.map fun q => (StopOp.flag [.router] (PipelineThread.waitsOn q) :
        StopOp (ThreadOf p) (PartOf p) Bool)).filterMap StopOp.freed = [] :=
      fun qs => List.filterMap_eq_nil_iff.mpr (List.forall_mem_map.mpr fun _ _ => rfl)
    have hscripts : ((List.finRange p.scriptData.length).map fun i => (StopOp.join (.script i) :
        StopOp (ThreadOf p) (PartOf p) Bool)).filterMap StopOp.freed = [] :=
      List.filterMap_eq_nil_iff.mpr (List.forall_mem_map.mpr fun _ _ => rfl)
    rw [stopOthers, List.filterMap_append, List.filterMap_append, List.filterMap_append, hqueues,
      hscripts]
    rfl
  rw [freedBy, stopPipeline_eq, List.filterMap_append, List.filterMap_append, hplugins, hothers]
  rfl

/-- Every part is freed once. -/
theorem count_freedBy (p : PipelineState P) (k : PartOf p) : (freedBy (stopPipeline p)).count k = 1 := by
  have hother : ∀ k : PartOf p, (∀ j, k ≠ .plugin j) →
      ((List.finRange p.plugins.length).map Part.plugin).count k = 0 := by
    intro k hk
    rw [List.count_eq_zero, List.mem_map]
    rintro ⟨j, -, rfl⟩
    exact hk j rfl
  rw [freedBy_stopPipeline, List.count_append]
  cases k with
  | plugin j =>
      have hinj : Function.Injective (Part.plugin : Fin p.plugins.length → PartOf p) :=
        fun _ _ => Part.plugin.inj
      rw [List.count_map_of_injective _ _ hinj,
        List.count_eq_one_of_mem (List.nodup_finRange _) (List.mem_finRange j)]
      rfl
  | router | publisher | registry | telemetry =>
      rw [hother _ fun j heq => by cases heq]
      rfl

/-- **`stop_pipeline` returns.** Where the operating system gives every thread its turns, again and
again, the call comes to its end; by then every thread has ended, and each part was freed, once. -/
theorem stop_pipeline_returns (h : startPipeline env cfg = .ok p)
    {turns : Nat → StopTurn (ThreadOf p) (Reading P)} (hfair : FairTo StopTurn.who turns) :
    ∃ n, (stateAt (Stopping.step (threads p)) (beginStop p) turns n).left = [] ∧
      (∀ t, (stateAt (Stopping.step (threads p)) (beginStop p) turns n).phase t = .ended) ∧
      (∀ k, (freedBy (stateAt (Stopping.step (threads p)) (beginStop p) turns n).past).count k = 1) := by
  obtain ⟨n, hleft, hpast, hended⟩ := Stopping.comes_to_end (threads_stop p)
    (wellOrdered (startPipeline_started h).queues) true hfair
  refine ⟨n, hleft, fun t => ?_, fun k => ?_⟩
  · have hend := hended t (join_mem_stopPipeline t)
    exact Phase.eq_ended hend
  · show (freedBy (stateAt (Stopping.step (threads p)) (.begin true (fun _ => .test) (stopPipeline p))
      turns n).past).count k = 1
    rw [hpast]
    exact count_freedBy p k

/-- `stop_pipeline`, the script's thread, the plugin's and the telemetry's, in turns. -/
def inTurns (k : Nat) : StopTurn (ThreadOf forkedState) (Reading 1) :=
  match k % 4 with
  | 0 => .main
  | 1 => .thread (.script forkedScript) {}
  | 2 => .thread (.ingestor forkedPlugin) {}
  | _ => .thread .telemetry {}

theorem eq_forkedScript (i : Fin forkedState.scriptData.length) : i = forkedScript := by
  have hlength : forkedState.scriptData.length = 1 := by decide +kernel
  exact Fin.ext (show i.val = 0 by omega)

theorem eq_forkedPlugin (j : Fin forkedState.plugins.length) : j = forkedPlugin := by
  have hlength : forkedState.plugins.length = 1 := by decide +kernel
  exact Fin.ext (show j.val = 0 by omega)

theorem inTurns_fair : FairTo StopTurn.who inTurns := by
  intro who k
  have hat : ∀ r < 4, (4 * k + r) % 4 = r := by omega
  cases who with
  | none =>
      refine ⟨4 * k + 0, by omega, ?_⟩
      rw [inTurns, hat 0 (by decide)]
      rfl
  | some t =>
      cases t with
      | script i =>
          refine ⟨4 * k + 1, by omega, ?_⟩
          rw [inTurns, hat 1 (by decide)]
          rw [eq_forkedScript i]
          rfl
      | ingestor j =>
          refine ⟨4 * k + 2, by omega, ?_⟩
          rw [inTurns, hat 2 (by decide)]
          rw [eq_forkedPlugin j]
          rfl
      | telemetry =>
          refine ⟨4 * k + 3, by omega, ?_⟩
          rw [inTurns, hat 3 (by decide)]
          rfl

theorem stop_pipeline_returns_forked :
    ∃ n, (stateAt (Stopping.step (threads forkedState)) (beginStop forkedState) inTurns n).left = [] ∧
      (∀ t, (stateAt (Stopping.step (threads forkedState)) (beginStop forkedState) inTurns n).phase t
        = .ended) ∧
      (∀ k, (freedBy (stateAt (Stopping.step (threads forkedState)) (beginStop forkedState)
        inTurns n).past).count k = 1) :=
  stop_pipeline_returns startPipeline_forked inTurns_fair

end Mawmaw.Server
