import Mawmaw.Lib.Ledger
import Mawmaw.Server.Lineage
import Mawmaw.Server.ScriptIds

/-!
# Every routed event, once for each of its targets

What the endpoints and the scripts of a running pipeline have received, against the events that were
routed and the routes of the configuration.

* `Pipeline.received`, `Pipeline.inFlight` : what a target has, and what is on its way to it;
* `routed` : the events routed in a run, a copy for each time a route lists the target;
* `booked_endpoint`, `booked_script` : a turn books what it routes;
* `routed_exactly` : every run.
-/

namespace Mawmaw.Server
open Mawmaw.Lib Mawmaw.Conf Mawmaw.Core Mawmaw.Pub

variable {P : Nat}

/-! ## What a target has and what is on its way -/

/-- The event an action delivers to the target. -/
def Action.toTarget (id : Str) : Action P → Option (Event P)
  | .target ev id' => if id' = id then some ev else none
  | _ => none

def Pipeline.inFlight (s : Pipeline P) (id : Str) : Multiset (Event P) :=
  s.acts.filterMap (Action.toTarget id)

/-- The calls of an endpoint. -/
def StreamRouter.deliveredTo (r : StreamRouter P) (id : Str) : Multiset (Event P) :=
  ((r.delivered.filterMap fun d => if d.1 = id then some d.2 else none : List (Event P)))

/-- The events a worker was handed. -/
def triggersOf (triggers : List (Nat × Event P)) (i : Nat) : Multiset (Event P) :=
  ((triggers.filterMap fun t => if t.1 = i then some t.2 else none : List (Event P)))

/-- What the target with this id was given: a script by its queue, an endpoint by its calls. -/
def Pipeline.received (s : Pipeline P) (id : Str) : Multiset (Event P) :=
  match s.router.handlers.lookup id with
  | some h => triggersOf s.triggers h.queueIndex + (s.router.unread h.queueIndex : Multiset (Event P))
  | none => StreamRouter.deliveredTo s.router id

/-- What an action routes to the target, by the routes `routes`. -/
def Action.routes (routes : UMap Str (List Str)) (id : Str) : Action P → Multiset (Event P)
  | .route ev => copies id (UMap.getD routes ev.stream []) ev
  | _ => 0

/-- What an action delivers to the target. -/
def Action.delivers (id : Str) (a : Action P) : Multiset (Event P) :=
  ((a.toTarget id).map fun ev => {ev}).getD 0

def routing (routes : UMap Str (List Str)) (id : Str) (s : Pipeline P) (t : Turn) :
    Multiset (Event P) :=
  ((s.actions t.thread).head?.map (Action.routes routes id)).getD 0

/-- What a run routes to the target. -/
def routed (scripts : List (ScriptThread P)) (routes : UMap Str (List Str)) (id : Str)
    (s : Pipeline P) (turns : List Turn) : Multiset (Event P) :=
  gained (step scripts) (routing routes id) s turns

/-- What an action leads to holds what it routes to the target. -/
theorem perform_toTarget (scripts : List (ScriptThread P)) (durationNs : UInt64)
    (r : StreamRouter P) (a : Action P) (id : Str) :
    ((((perform scripts durationNs r a).2.filterMap (Action.toTarget id) : List (Event P))) :
      Multiset (Event P)) = a.routes r.routeTable id := by
  cases a with
  | emit name ev => rfl
  | target ev id' => rfl
  | route ev =>
      rw [perform, List.filterMap_map, Action.routes, copies_eq_filterMap]
      rfl
  | dispatch i ev =>
      rw [perform]
      cases scripts[i]? with
      | none => rfl
      | some st =>
          dsimp only
          rw [List.filterMap_map]
          have hnone : (Action.toTarget id ∘ Action.emit st.outputStream : Event P → _)
              = fun _ => none := rfl
          rw [hnone, List.filterMap_none]
          rfl

theorem deliveredTo_append {r r' : StreamRouter P} {d : Str × Event P}
    (h : r'.delivered = r.delivered ++ [d]) (id : Str) :
    StreamRouter.deliveredTo r' id
      = StreamRouter.deliveredTo r id + if d.1 = id then {d.2} else 0 := by
  unfold StreamRouter.deliveredTo
  rw [h, List.filterMap_append, ← Multiset.coe_add, List.filterMap_cons, List.filterMap_nil]
  by_cases hd : d.1 = id
  · simp only [hd, if_true]
    rfl
  · simp only [hd, if_false]
    rfl

theorem delivers_target_eq (ev : Event P) (id id' : Str) :
    (Action.target ev id').delivers id = if id' = id then {ev} else 0 := by
  show ((if id' = id then some ev else none).map fun ev => ({ev} : Multiset (Event P))).getD 0 = _
  by_cases hid : id' = id
  · rw [if_pos hid, if_pos hid]
    rfl
  · rw [if_neg hid, if_neg hid]
    rfl

theorem deliveredTo_quiet {r r' : StreamRouter P} (h : Quiet r r') (id : Str) :
    StreamRouter.deliveredTo r' id = StreamRouter.deliveredTo r id := by
  rw [StreamRouter.deliveredTo, StreamRouter.delivered, h.publisher]
  rfl

/-- An endpoint is given what is delivered to it, and what is no endpoint nothing. -/
theorem deliveredTo_perform (scripts : List (ScriptThread P)) (durationNs : UInt64)
    {r : StreamRouter P} {id : Str} (hlook : r.handlers.lookup id = none) (a : Action P) :
    StreamRouter.deliveredTo (perform scripts durationNs r a).1 id
      = StreamRouter.deliveredTo r id
        + if (wiring r).hasEndpoint id then a.delivers id else 0 := by
  have hnone : (if (wiring r).hasEndpoint id then (0 : Multiset (Event P)) else 0) = 0 := ite_self _
  have hsame : StreamRouter.deliveredTo r id
      = StreamRouter.deliveredTo r id + if (wiring r).hasEndpoint id then 0 else 0 := by
    rw [hnone, add_zero]
  cases a with
  | emit name ev => exact hsame
  | route ev => exact hsame
  | target ev id' =>
      rw [delivers_target_eq]
      show StreamRouter.deliveredTo (r.routeTarget ev id') id = _
      rcases routeTarget_cases r ev id' with ⟨h, hlook', heq⟩ | ⟨-, hep', pub, tel, hpub, heq⟩ |
        ⟨-, hep', hq⟩
      · have hne : id' ≠ id := by
          rintro rfl
          have hsome : r.handlers.lookup id' = some h := hlook'
          rw [hlook] at hsome
          cases hsome
        rw [heq, if_neg hne, hnone, add_zero]
        rfl
      · have hdelivered : (r.routeTarget ev id').delivered = r.delivered ++ [(id', ev)] := by
          rw [heq, StreamRouter.delivered, StreamRouter.delivered, hpub]
          rfl
        rw [deliveredTo_append hdelivered]
        by_cases hid : id' = id
        · subst hid
          simp only [hep', if_true]
        · simp only [hid, if_false, hnone]
      · rw [deliveredTo_quiet hq]
        by_cases hid : id' = id
        · rw [← hid, hep']
          exact (add_zero _).symm
        · rw [if_neg hid, hnone, add_zero]
  | dispatch i ev =>
      rw [perform]
      cases scripts[i]? with
      | none => exact hsame
      | some st =>
          exact (deliveredTo_quiet (quiet_call st.dispatch r ev durationNs) id).trans hsame

theorem unread_congr_quiet {r r' : StreamRouter P} (h : Quiet r r') (k : Nat) :
    r'.unread k = r.unread k := unread_congr (by rw [h.queues]) (by rw [h.readPositions])

/-- The queue of a script, which no other target leads to, is given what is delivered to it. -/
theorem unread_perform (scripts : List (ScriptThread P)) (durationNs : UInt64)
    {r : StreamRouter P} (hrun : r.Running) {id : Str} {h : HandlerEntry P}
    (hlook : r.handlers.lookup id = some h) (hk : h.queueIndex < r.queues.length)
    (hown : ∀ id' h', r.handlers.lookup id' = some h' → h'.queueIndex = h.queueIndex → id' = id)
    (a : Action P) (hcap : r.Fits h.queueIndex)
    (hcap' : (perform scripts durationNs r a).1.Fits h.queueIndex) :
    ((perform scripts durationNs r a).1.unread h.queueIndex : Multiset (Event P))
      = (r.unread h.queueIndex : Multiset (Event P)) + a.delivers id := by
  cases a with
  | emit name ev => exact (add_zero _).symm
  | route ev =>
      refine Eq.trans ?_ (add_zero _).symm
      exact congrArg _ (unread_congr_quiet (quiet_routeBegin r ev) h.queueIndex)
  | target ev id' =>
      rw [delivers_target_eq]
      have hcapT : (r.routeTarget ev id').Fits h.queueIndex := hcap'
      show ((r.routeTarget ev id').unread h.queueIndex : Multiset (Event P)) = _
      rcases routeTarget_cases r ev id' with ⟨h', hlook', heq⟩ | ⟨hlook', -, pub, tel, hpub, heq⟩ |
        ⟨hlook', -, hq⟩
      · rw [heq] at hcapT ⊢
        by_cases hid : id' = id
        · subst hid
          obtain rfl := Option.some.inj (hlook.symm.trans hlook')
          rw [unread_enqueue hk hrun ev hcap hcapT, if_pos rfl, ← Multiset.coe_add]
          rfl
        · have hne : h'.queueIndex ≠ h.queueIndex := fun hq => hid (hown id' h' hlook' hq)
          have hq : (r.enqueue h'.queueIndex ev).queues[h.queueIndex]? = r.queues[h.queueIndex]? :=
            List.getElem?_modify_ne _ _ hne
          rw [unread_congr hq rfl, if_neg hid, add_zero]
      · have hne : id' ≠ id := by
          rintro rfl
          have hnone : r.handlers.lookup id' = none := hlook'
          rw [hlook] at hnone
          cases hnone
        rw [heq, if_neg hne, add_zero]
        rfl
      · have hne : id' ≠ id := by
          rintro rfl
          have hnone : r.handlers.lookup id' = none := hlook'
          rw [hlook] at hnone
          cases hnone
        rw [unread_congr_quiet hq, if_neg hne, add_zero]
  | dispatch i ev =>
      rw [perform]
      cases scripts[i]? with
      | none => exact (add_zero _).symm
      | some st =>
          refine Eq.trans ?_ (add_zero _).symm
          exact congrArg _ (unread_congr_quiet (quiet_call st.dispatch r ev durationNs) _)

/-! ## A turn books what it routes -/

/-- What is on its way to a target, before and after an action. -/
theorem inFlight_perform {scripts : List (ScriptThread P)} {s s' : Pipeline P} {a : Action P}
    {K : Multiset (Action P)} {durationNs : UInt64} (id : Str) (hold : s.acts = a ::ₘ K)
    (hnew : s'.acts = ((perform scripts durationNs s.router a).2 : Multiset (Action P)) + K) :
    s'.inFlight id + a.delivers id = s.inFlight id + a.routes s.router.routeTable id := by
  have hcons : (a ::ₘ K).filterMap (Action.toTarget id)
      = a.delivers id + K.filterMap (Action.toTarget id) := Multiset.filterMap_cons _ _ _
  rw [Pipeline.inFlight, Pipeline.inFlight, hold, hnew, Multiset.filterMap_add,
    Multiset.filterMap_coe, perform_toTarget, hcons]
  ac_rfl

theorem inFlight_dispatch {s s' : Pipeline P} {i : Nat} {ev : Event P} (id : Str)
    (hnew : s'.acts = .dispatch i ev ::ₘ s.acts) : s'.inFlight id = s.inFlight id := by
  have hnone : Action.toTarget id (.dispatch i ev) = none := rfl
  rw [Pipeline.inFlight, hnew, Multiset.filterMap_cons_none _ _ hnone]
  rfl

theorem inFlight_pack {s s' : Pipeline P} {evs : List (Event P)} (id : Str)
    (hnew : s'.acts = ((evs.map .route : List (Action P)) : Multiset (Action P)) + s.acts) :
    s'.inFlight id = s.inFlight id := by
  have hnone : (Action.toTarget id ∘ Action.route : Event P → _) = fun _ => none := rfl
  rw [Pipeline.inFlight, hnew, Multiset.filterMap_add, Multiset.filterMap_coe, List.filterMap_map,
    hnone, List.filterMap_none, Multiset.coe_nil, zero_add]
  rfl

section Books
variable {scripts : List (ScriptThread P)} {s : Pipeline P} {id : Str} (t : Turn)

theorem booked_endpoint (hlook : s.router.handlers.lookup id = none)
    (hep : (wiring s.router).hasEndpoint id = true) :
    StreamRouter.deliveredTo (step scripts s t).router id + (step scripts s t).inFlight id
      = StreamRouter.deliveredTo s.router id + s.inFlight id
        + routing s.router.routeTable id s t := by
  rw [routing]
  rcases step_acts scripts s t with ⟨hidle, hsame⟩ | ⟨a, K, hhead, hold, hrouter, -, hnew⟩ |
    ⟨i, ev, pos, hidle, hwait, -, hnew⟩ | ⟨evs, hidle, hquiet, -, hnew⟩
  · rw [hidle, hsame]
    exact (add_zero _).symm
  · rw [hhead, hrouter, deliveredTo_perform scripts t.durationNs hlook, if_pos hep, add_assoc,
      add_comm (a.delivers id), inFlight_perform id hold hnew, add_assoc]
    rfl
  · obtain ⟨q, pos, -, -, -, -, hrouter⟩ := waitForTrigger_returned hwait
    rw [hidle, hrouter, inFlight_dispatch id hnew]
    exact (add_zero _).symm
  · rw [hidle, deliveredTo_quiet hquiet, inFlight_pack id hnew]
    exact (add_zero _).symm

/-- What is no endpoint is given nothing. -/
theorem deliveredTo_step_unknown (hlook : s.router.handlers.lookup id = none)
    (hep : (wiring s.router).hasEndpoint id = false) :
    StreamRouter.deliveredTo (step scripts s t).router id
      = StreamRouter.deliveredTo s.router id := by
  rcases step_acts scripts s t with ⟨-, hsame⟩ | ⟨a, K, -, -, hrouter, -, -⟩ |
    ⟨i, ev, pos, -, hwait, -, -⟩ | ⟨evs, -, hquiet, -, -⟩
  · rw [hsame]
  · rw [hrouter, deliveredTo_perform scripts t.durationNs hlook, hep]
    exact add_zero _
  · obtain ⟨q, pos, -, -, -, -, hrouter⟩ := waitForTrigger_returned hwait
    rw [hrouter]
    rfl
  · exact deliveredTo_quiet hquiet id

theorem triggersOf_append (triggers : List (Nat × Event P)) (i k : Nat) (ev : Event P) :
    triggersOf (triggers ++ [(i, ev)]) k = triggersOf triggers k + if i = k then {ev} else 0 := by
  unfold triggersOf
  rw [List.filterMap_append, ← Multiset.coe_add, List.filterMap_cons, List.filterMap_nil]
  by_cases hi : i = k
  · simp only [hi, if_true]
    rfl
  · simp only [hi, if_false]
    rfl

/-- The event a worker is handed leaves its queue. -/
theorem unread_waitForTrigger {r r' : StreamRouter P} {i : Nat} {ev : Event P} {pos : UInt64}
    (h : r.waitForTrigger i = (.returned (some ev) pos, r')) (k : Nat) :
    (r.unread k : Multiset (Event P)) = (if i = k then {ev} else 0) + (r'.unread k) := by
  obtain ⟨q, pos, hq, hp, hlt, rfl, rfl⟩ := waitForTrigger_returned h
  obtain ⟨hi, -⟩ := List.getElem?_eq_some_iff.mp hp
  by_cases hik : i = k
  · subst hik
    have hp' : (r.readPositions.set i (pos + 1))[i]? = some (pos + 1) := List.getElem?_set_self hi
    rw [if_pos rfl, unread_of hq hp, unread_of (r := { r with
      readPositions := r.readPositions.set i (pos + 1) }) hq hp', RingBuffer.unread_read hlt,
      ← Multiset.cons_coe, Multiset.singleton_add]
  · have hp' : (r.readPositions.set i (pos + 1))[k]? = r.readPositions[k]? :=
      List.getElem?_set_ne hik
    have hsame : r.unread k
        = StreamRouter.unread { r with readPositions := r.readPositions.set i (pos + 1) } k :=
      unread_congr rfl hp'.symm
    rw [if_neg hik, zero_add, hsame]

theorem booked_script (hrun : s.router.Running) {h : HandlerEntry P}
    (hlook : s.router.handlers.lookup id = some h) (hk : h.queueIndex < s.router.queues.length)
    (hown : ∀ id' h', s.router.handlers.lookup id' = some h' → h'.queueIndex = h.queueIndex →
      id' = id)
    (hcap : s.router.Fits h.queueIndex) (hcap' : (step scripts s t).router.Fits h.queueIndex) :
    triggersOf (step scripts s t).triggers h.queueIndex
        + ((step scripts s t).router.unread h.queueIndex : Multiset (Event P))
        + (step scripts s t).inFlight id
      = triggersOf s.triggers h.queueIndex
        + (s.router.unread h.queueIndex : Multiset (Event P)) + s.inFlight id
        + routing s.router.routeTable id s t := by
  rw [routing]
  rcases step_acts scripts s t with ⟨hidle, hsame⟩ | ⟨a, K, hhead, hold, hrouter, htrig, hnew⟩ |
    ⟨i, ev, pos, hidle, hwait, htrig, hnew⟩ | ⟨evs, hidle, hquiet, htrig, hnew⟩
  · rw [hidle, hsame]
    exact (add_zero _).symm
  · rw [hrouter] at hcap'
    rw [hhead, htrig, hrouter, unread_perform scripts t.durationNs hrun hlook hk hown a hcap hcap']
    rw [add_assoc, add_assoc _ (a.delivers id), add_comm (a.delivers id),
      inFlight_perform id hold hnew]
    simp only [Option.map_some, Option.getD_some, add_assoc]
  · rw [hidle, htrig, triggersOf_append, inFlight_dispatch id hnew,
      unread_waitForTrigger hwait h.queueIndex]
    simp only [Option.map_none, Option.getD_none, add_zero, add_assoc]
  · rw [hidle, htrig, unread_congr_quiet hquiet, inFlight_pack id hnew]
    exact (add_zero _).symm

end Books

variable {env : Environment P} {cfg : Config} {p : PipelineState P}

/-! ## Runs of a started pipeline -/

/-- Queue `k` never holds more than its capacity, at the start and after each turn. -/
def StaysWithin (scripts : List (ScriptThread P)) (k : Nat) (s : Pipeline P) (turns : List Turn) :
    Prop :=
  ∀ pre, pre <+: turns → (run scripts s pre).router.Fits k

instance (scripts : List (ScriptThread P)) (k : Nat) (s : Pipeline P) (turns : List Turn) :
    Decidable (StaysWithin scripts k s turns) :=
  decidable_of_iff (∀ pre ∈ turns.inits, (run scripts s pre).router.Fits k) <| by
    simp only [List.mem_inits]
    rfl

/-- The queue is within its capacity at both ends of every turn. -/
theorem StaysWithin.along {scripts : List (ScriptThread P)} {k : Nat} {turns : List Turn} :
    ∀ {s : Pipeline P}, StaysWithin scripts k s turns →
      Along (step scripts) (fun s t => s.router.Fits k ∧ (step scripts s t).router.Fits k)
        s turns := by
  induction turns with
  | nil =>
      intro s _
      exact trivial
  | cons t turns ih =>
      intro s h
      have htail : StaysWithin scripts k (step scripts s t) turns :=
        fun pre hpre => h (t :: pre) (List.cons_prefix_cons.mpr ⟨rfl, hpre⟩)
      exact ⟨⟨h [] List.nil_prefix, htail [] List.nil_prefix⟩, ih htail⟩

theorem start_inFlight (r : StreamRouter P) (ings : List (Ingestor P)) (id : Str) :
    (start r ings).inFlight id = 0 := by
  have hworkers : (List.replicate r.queues.length ([] : List (Action P))).flatten = [] := by
    rw [List.flatten_eq_nil_iff]
    intro as has
    exact (List.mem_replicate.mp has).2
  have hacts : (start r ings).acts
      = (((ings.map fun g => g.events.map (Action.emit g.renameTo)).flatten : List (Action P))) := by
    rw [Pipeline.acts, start, hworkers, Multiset.coe_nil, zero_add, add_zero]
  rw [Pipeline.inFlight, hacts, Multiset.filterMap_coe, Multiset.coe_eq_zero,
    List.filterMap_eq_nil_iff]
  intro a ha
  obtain ⟨as, has, ha⟩ := List.mem_flatten.mp ha
  obtain ⟨g, -, rfl⟩ := List.mem_map.mp has
  obtain ⟨ev, -, rfl⟩ := List.mem_map.mp ha
  rfl

theorem Drained.inFlight {s : Pipeline P} (h : Drained s) (id : Str) : s.inFlight id = 0 := by
  have hacts : s.acts = 0 := by
    rw [Pipeline.acts, List.flatten_eq_nil_iff.mpr h.workers,
      List.flatten_eq_nil_iff.mpr h.ingestors, h.metrics]
    rfl
  rw [Pipeline.inFlight, hacts]
  rfl

section Runs
variable (h : startPipeline env cfg = .ok p) (turns : List Turn) {id : Str}
include h

/-- The endpoint of this id has, in every run, what was routed to it and is not on its way. -/
theorem routed_endpoint (hlook : p.router.handlers.lookup id = none)
    (hep : (wiring p.router).hasEndpoint id = true) :
    StreamRouter.deliveredTo (p.after turns).router id + (p.after turns).inFlight id
      = routed p.scriptData (parseRoutes cfg) id (start p.router p.plugins) turns := by
  have hsilent : StreamRouter.deliveredTo p.router id = 0 := by
    rw [StreamRouter.deliveredTo, (startPipeline_wired h).silent]
    rfl
  have hbook := balance (routing (parseRoutes cfg) id) (WiredAs p) (fun _ _ => True)
    (fun s : Pipeline P => StreamRouter.deliveredTo s.router id + s.inFlight id)
    (fun s t hs => hs.step t) (fun s t hs _ => ?_) turns (start p.router p.plugins)
    ⟨rfl, (startPipeline_started h).running⟩ (Along.of_inv (fun _ _ (htrue : True) => htrue) (fun _ _ _ => trivial) turns _ trivial)
  · refine hbook.trans ?_
    rw [start_inFlight, add_zero]
    show StreamRouter.deliveredTo p.router id + _ = _
    rw [hsilent, zero_add]
    rfl
  · have hroutes : s.router.routeTable = parseRoutes cfg :=
      (congrArg Wiring.routeTable hs.1).trans (startPipeline_routeTable h)
    have hhandlers : s.router.handlers = p.router.handlers := congrArg Wiring.handlers hs.1
    have hlook' : s.router.handlers.lookup id = none := by rw [hhandlers, hlook]
    have hep' : (wiring s.router).hasEndpoint id = true := by rw [hs.1, hep]
    rw [← hroutes]
    exact booked_endpoint t hlook' hep'

/-- The script of this id was handed or has in its queue, in every run in which that never overflows,
what was routed to it and is not on its way. -/
theorem routed_script {hd : HandlerEntry P} (hlook : p.router.handlers.lookup id = some hd)
    (hcap : StaysWithin p.scriptData hd.queueIndex (start p.router p.plugins) turns) :
    triggersOf (p.after turns).triggers hd.queueIndex
        + ((p.after turns).router.unread hd.queueIndex : Multiset (Event P))
        + (p.after turns).inFlight id
      = routed p.scriptData (parseRoutes cfg) id (start p.router p.plugins) turns := by
  have hwired := startPipeline_wired h
  have hbook := balance (routing (parseRoutes cfg) id) (WiredAs p)
    (fun s t => s.router.Fits hd.queueIndex ∧ (step p.scriptData s t).router.Fits hd.queueIndex)
    (fun s : Pipeline P => triggersOf s.triggers hd.queueIndex
      + (s.router.unread hd.queueIndex : Multiset (Event P)) + s.inFlight id)
    (fun s t hs => hs.step t) (fun s t hs hC => ?_) turns (start p.router p.plugins)
    ⟨rfl, (startPipeline_started h).running⟩ hcap.along
  · refine hbook.trans ?_
    rw [start_inFlight, add_zero]
    show triggersOf [] hd.queueIndex + ((p.router.unread hd.queueIndex : List (Event P)) :
      Multiset (Event P)) + _ = _
    rw [hwired.unread, Multiset.coe_nil, add_zero]
    exact zero_add _
  · have hroutes : s.router.routeTable = parseRoutes cfg :=
      (congrArg Wiring.routeTable hs.1).trans (startPipeline_routeTable h)
    have hhandlers : s.router.handlers = p.router.handlers := congrArg Wiring.handlers hs.1
    have hqueues : s.router.queues.length = p.router.queues.length := congrArg Wiring.queues hs.1
    rw [← hhandlers] at hlook
    have hlt : hd.queueIndex < s.router.queues.length := by
      rw [hqueues]
      exact hwired.lt_queues (by rw [← hhandlers]; exact hlook)
    have hown : ∀ id' h', s.router.handlers.lookup id' = some h' →
        h'.queueIndex = hd.queueIndex → id' = id := by
      intro id' h' hlook' hq
      rw [hhandlers] at hlook hlook'
      exact hwired.injective hlook hlook' hq
    rw [← hroutes]
    exact booked_script t hs.2 hlook hlt hown hC.1 hC.2

/-- What is neither a script nor an endpoint is given nothing, in any run. -/
theorem routed_nowhere (hlook : p.router.handlers.lookup id = none)
    (hep : (wiring p.router).hasEndpoint id = false) :
    StreamRouter.deliveredTo (p.after turns).router id = 0 := by
  have hstart : StreamRouter.deliveredTo p.router id = 0 := by
    rw [StreamRouter.deliveredTo, (startPipeline_wired h).silent]
    rfl
  have hstep : ∀ (s : Pipeline P) (t : Turn), WiredAs p s ∧ StreamRouter.deliveredTo s.router id = 0 →
      WiredAs p (step p.scriptData s t)
        ∧ StreamRouter.deliveredTo (step p.scriptData s t).router id = 0 := by
    intro s t hs
    have hhandlers : s.router.handlers = p.router.handlers := congrArg Wiring.handlers hs.1.1
    have hlook' : s.router.handlers.lookup id = none := by rw [hhandlers, hlook]
    have hep' : (wiring s.router).hasEndpoint id = false := by rw [hs.1.1, hep]
    rw [deliveredTo_step_unknown t hlook' hep']
    exact ⟨hs.1.step t, hs.2⟩
  exact (foldl_keeps hstep turns (start p.router p.plugins)
    ⟨⟨rfl, (startPipeline_started h).running⟩, hstart⟩).2

/-- **Every routed event, once for each of its targets.** In every state of every run of a started
pipeline, an endpoint or script has been given, counting what is on its way, each routed event as
often as the configuration lists the target for the event's stream, and nothing else. Once all is
drained nothing is on its way; what is no target is never given anything. -/
theorem routed_exactly (hcap : ∀ hd, p.router.handlers.lookup id = some hd →
      StaysWithin p.scriptData hd.queueIndex (start p.router p.plugins) turns) :
    ((wiring p.router).takes id = true →
      (p.after turns).received id + (p.after turns).inFlight id
          = routed p.scriptData (parseRoutes cfg) id (start p.router p.plugins) turns ∧
        (Drained (p.after turns) → (p.after turns).received id
          = routed p.scriptData (parseRoutes cfg) id (start p.router p.plugins) turns)) ∧
    ((wiring p.router).takes id = false → (p.after turns).received id = 0) := by
  have hwired := startPipeline_wired h
  have hset : WiredAs p (p.after turns) :=
    foldl_keeps (fun s t (hs : WiredAs p s) => hs.step t) turns (start p.router p.plugins)
      ⟨rfl, (startPipeline_started h).running⟩
  have hhandlers : (p.after turns).router.handlers = p.router.handlers :=
    congrArg Wiring.handlers hset.1
  have hdrained : ∀ m, (p.after turns).received id + (p.after turns).inFlight id = m →
      (p.after turns).received id + (p.after turns).inFlight id = m ∧
        (Drained (p.after turns) → (p.after turns).received id = m) := by
    refine fun m hm => ⟨hm, fun hdone => ?_⟩
    rwa [hdone.inFlight, add_zero] at hm
  have hw : (wiring p.router).handlers = p.router.handlers := rfl
  unfold Wiring.takes
  rw [hw]
  cases hlook : p.router.handlers.lookup id with
  | none =>
      refine ⟨fun hep => hdrained _ ?_, fun hep => ?_⟩
      · rw [Pipeline.received, hhandlers, hlook]
        exact routed_endpoint h turns hlook hep
      · rw [Pipeline.received, hhandlers, hlook]
        exact routed_nowhere h turns hlook hep
  | some hd =>
      refine ⟨fun _ => hdrained _ ?_, fun hlt => ?_⟩
      · rw [Pipeline.received, hhandlers, hlook]
        exact routed_script h turns hlook (hcap hd hlook)
      · exact absurd (hwired.lt_queues hlook) (of_decide_eq_false hlt)

end Runs

/-- An ingestor whose stream goes to a script and to an endpoint. -/
def forkedConfig : Config where
  sections := [twoStreamsSection,
    routesSection (lit "s") (lit "f, stdout, f"), ingestorSection (lit "i.so") (lit "s")]

def forkedState : PipelineState 1 :=
  match startPipeline (returningEnv (lit "a")) forkedConfig with
  | .ok p => p
  | .error _ => { router := {} }

theorem startPipeline_forked :
    startPipeline (returningEnv (lit "a")) forkedConfig = .ok forkedState := rfl

/-- The event is ingested and routed, and the script is handed it once. -/
def forkedTurns : List Turn := turns 5 (.ingestor 0) ++ turns 2 (.worker 0)

theorem routed_exactly_forked :
    ((wiring forkedState.router).takes (lit "f") = true →
      (forkedState.after forkedTurns).received (lit "f")
            + (forkedState.after forkedTurns).inFlight (lit "f")
          = routed forkedState.scriptData (parseRoutes forkedConfig) (lit "f")
              (start forkedState.router forkedState.plugins) forkedTurns ∧
        (Drained (forkedState.after forkedTurns) →
          (forkedState.after forkedTurns).received (lit "f")
            = routed forkedState.scriptData (parseRoutes forkedConfig) (lit "f")
              (start forkedState.router forkedState.plugins) forkedTurns)) ∧
    ((wiring forkedState.router).takes (lit "f") = false →
      (forkedState.after forkedTurns).received (lit "f") = 0) :=
  routed_exactly startPipeline_forked forkedTurns
    (show ∀ hd ∈ forkedState.router.handlers.lookup (lit "f"),
      StaysWithin forkedState.scriptData hd.queueIndex
        (start forkedState.router forkedState.plugins) forkedTurns by decide +kernel)

end Mawmaw.Server
