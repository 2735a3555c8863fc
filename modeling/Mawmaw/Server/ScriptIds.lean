import Mawmaw.Server.Naming

/-!
# Scripts of one id

The handlers are kept by script id, the queues and the threads by the order of the sections.

* `Pipeline.acts` : everything the threads still have to do; `step_acts` : one turn, as bags;
* `Wired` : the handlers a start sets up; `WiredAs` : what stays of them in a run;
* `Starved` : nothing has come to a worker; `shadowed_never_triggered` : the script of an id that a
  later one has, too.
-/

namespace Mawmaw.Server
open Mawmaw.Lib Mawmaw.Conf Mawmaw.Core Mawmaw.Pub

variable {P : Nat}

/-! ## One turn, as bags -/

def Pipeline.acts (s : Pipeline P) : Multiset (Action P) :=
  (s.workers.flatten : Multiset (Action P)) + (s.ingestors.flatten : Multiset (Action P)) +
    (s.metrics : Multiset (Action P))

/-- **One turn** changes nothing, replaces the thread's next action by what it leads to, hands an
idle worker the next event of its queue, or packs metrics to route. -/
theorem step_acts (scripts : List (ScriptThread P)) (s : Pipeline P) (t : Turn) :
    ((s.actions t.thread).head? = none ∧ step scripts s t = s) ∨
    (∃ a K, (s.actions t.thread).head? = some a ∧ s.acts = a ::ₘ K ∧
      (step scripts s t).router = (perform scripts t.durationNs s.router a).1 ∧
      (step scripts s t).triggers = s.triggers ∧
      (step scripts s t).acts
        = ((perform scripts t.durationNs s.router a).2 : Multiset (Action P)) + K) ∨
    (∃ i ev pos, (s.actions t.thread).head? = none ∧
      s.router.waitForTrigger i = (.returned (some ev) pos, (step scripts s t).router) ∧
      (step scripts s t).triggers = s.triggers ++ [(i, ev)] ∧
      (step scripts s t).acts = .dispatch i ev ::ₘ s.acts) ∨
    (∃ evs : List (Event P), (s.actions t.thread).head? = none ∧
      Quiet s.router (step scripts s t).router ∧ (step scripts s t).triggers = s.triggers ∧
      (step scripts s t).acts = ((evs.map .route : List (Action P)) : Multiset (Action P)) + s.acts) := by
  have heffect := step_effect scripts s t
  generalize step scripts s t = s' at heffect ⊢
  cases heffect with
  | idle hidle => exact Or.inl ⟨by rw [hidle]; rfl, rfl⟩
  | @ingestor j a rest hthread hj =>
      obtain ⟨K, hold, hnew⟩ := flatten_set_bag hj
      refine Or.inr (Or.inl ⟨a, (s.workers.flatten : Multiset (Action P)) + (K + rest) +
        (s.metrics : Multiset (Action P)), ?_, ?_, rfl, rfl, ?_⟩)
      · rw [hthread, Pipeline.actions, hj]
        rfl
      · rw [Pipeline.acts, hold, ← Multiset.cons_coe, Multiset.add_cons, Multiset.add_cons,
          Multiset.cons_add]
      · dsimp only [Pipeline.acts]
        rw [hnew, ← Multiset.coe_add]
        ac_rfl
  | @worker i a rest hthread hi =>
      obtain ⟨K, hold, hnew⟩ := flatten_set_bag hi
      refine Or.inr (Or.inl ⟨a, K + rest + (s.ingestors.flatten : Multiset (Action P)) +
        (s.metrics : Multiset (Action P)), ?_, ?_, rfl, rfl, ?_⟩)
      · rw [hthread, Pipeline.actions, hi]
        rfl
      · rw [Pipeline.acts, hold, ← Multiset.cons_coe, Multiset.add_cons, Multiset.cons_add,
          Multiset.cons_add]
      · dsimp only [Pipeline.acts]
        rw [hnew, ← Multiset.coe_add]
        ac_rfl
  | @trigger i ev pos _ hthread hi hwait =>
      obtain ⟨K, hold, hnew⟩ := flatten_set_bag hi
      refine Or.inr (Or.inr (Or.inl ⟨i, ev, pos, ?_, hwait, rfl, ?_⟩))
      · rw [hthread, Pipeline.actions, hi]
        rfl
      · dsimp only [Pipeline.acts]
        rw [hnew, hold, Multiset.coe_nil, add_zero, Multiset.coe_singleton,
          ← Multiset.singleton_add]
        ac_rfl
  | @metrics a rest hthread hm =>
      refine Or.inr (Or.inl ⟨a, (s.workers.flatten : Multiset (Action P)) +
        (s.ingestors.flatten : Multiset (Action P)) + rest, ?_, ?_, rfl, rfl, ?_⟩)
      · rw [hthread, Pipeline.actions, hm]
        rfl
      · rw [Pipeline.acts, hm, ← Multiset.cons_coe, Multiset.add_cons]
      · dsimp only [Pipeline.acts]
        rw [← Multiset.coe_add]
        ac_rfl
  | @pack tel evs _ hthread hm _ =>
      refine Or.inr (Or.inr (Or.inr ⟨evs, ?_, quiet_tel s.router tel, rfl, ?_⟩))
      · rw [hthread, Pipeline.actions, hm]
        rfl
      · dsimp only [Pipeline.acts]
        rw [hm, Multiset.coe_nil, add_zero, add_comm]

/-! ## The handlers of a started pipeline -/

/-- What a start has set up: a handler leads to the queue of the last script of its id, and nothing
was delivered or queued so far. -/
structure Wired (s : PipelineState P) : Prop where
  queues : s.router.queues.length = s.scriptData.length
  last : ∀ id h, s.router.handlers.lookup id = some h →
    ∃ st, s.scriptData[h.queueIndex]? = some st ∧ st.dispatch.script.id = id ∧
      ∀ j st', s.scriptData[j]? = some st' → st'.dispatch.script.id = id → j ≤ h.queueIndex
  registered : ∀ st ∈ s.scriptData, (s.router.handlers.lookup st.dispatch.script.id).isSome
  empty : ∀ q ∈ s.router.queues, q.ring.writeSeq = 0
  unmoved : ∀ pos ∈ s.router.readPositions, pos = 0
  silent : s.router.delivered = []

namespace Wired
variable {s : PipelineState P}

theorem log (h : Wired s) (line : Str) : Wired (s.log line) :=
  ⟨h.queues, h.last, h.registered, h.empty, h.unmoved, h.silent⟩

theorem addEndpoint (h : Wired s) (ep : Endpoint) : Wired (s.addEndpoint ep) := by
  refine ⟨h.queues, h.last, h.registered, h.empty, h.unmoved, ?_⟩
  have hsilent := h.silent
  unfold StreamRouter.delivered at hsilent ⊢
  show ((s.router.publisher.map (·.addEndpoint ep)).map (·.delivered)).getD [] = []
  rw [← hsilent]
  cases s.router.publisher <;> rfl

theorem registerScript (h : Wired s) (sec : Section) (script : IScript P) :
    Wired (registerScript s sec script) := by
  -- the new thread comes last, and its handler leads to the queue made for it
  have hdata : (Server.registerScript s sec script).scriptData
      = s.scriptData ++ [scriptThread sec script s.router.registry.registerScript.1] := rfl
  have hhandlers : ∃ entry : HandlerEntry P, entry.queueIndex = s.scriptData.length ∧
      (Server.registerScript s sec script).router.handlers
        = s.router.handlers.insert script.id entry := ⟨_, h.queues, rfl⟩
  obtain ⟨entry, hentry, hhandlers⟩ := hhandlers
  refine ⟨?_, ?_, ?_, ?_, ?_, h.silent⟩
  · show (s.router.queues ++ [_]).length = (s.scriptData ++ [_]).length
    rw [List.length_append, List.length_append, h.queues]
    rfl
  · intro id hd hlook
    rw [hhandlers] at hlook
    rw [hdata]
    by_cases hid : id = script.id
    · subst hid
      rw [AList.lookup_insert] at hlook
      obtain rfl := Option.some.inj hlook
      refine ⟨scriptThread sec script s.router.registry.registerScript.1, ?_, rfl,
        fun j st' hj _ => ?_⟩
      · rw [hentry, List.getElem?_append_right (Nat.le_refl _), Nat.sub_self]
        rfl
      · obtain ⟨hlt, -⟩ := List.getElem?_eq_some_iff.mp hj
        rw [List.length_append, List.length_singleton] at hlt
        omega
    · rw [AList.lookup_insert_ne hid] at hlook
      obtain ⟨st, hst, hname, hlast⟩ := h.last id hd hlook
      obtain ⟨hlt, -⟩ := List.getElem?_eq_some_iff.mp hst
      refine ⟨st, by rw [List.getElem?_append_left hlt, hst], hname, fun j st' hj hname' => ?_⟩
      rcases Nat.lt_or_ge j s.scriptData.length with hjlt | hjge
      · rw [List.getElem?_append_left hjlt] at hj
        exact hlast j st' hj hname'
      · rw [List.getElem?_append_right hjge] at hj
        have hnew := List.mem_singleton.mp (List.mem_of_getElem? hj)
        rw [hnew] at hname'
        exact absurd hname'.symm hid
  · intro st hst
    rw [hdata] at hst
    rw [hhandlers]
    by_cases hid : st.dispatch.script.id = script.id
    · rw [hid, AList.lookup_insert]
      rfl
    · rw [AList.lookup_insert_ne hid]
      rcases List.mem_append.mp hst with hst | hst
      · exact h.registered st hst
      · rw [List.mem_singleton.mp hst] at hid
        exact absurd rfl hid
  · intro q hq
    rcases List.mem_append.mp hq with hq | hq
    · exact h.empty q hq
    · rw [List.mem_singleton.mp hq]
      rfl
  · intro pos hpos
    rcases List.mem_append.mp hpos with hpos | hpos
    · exact h.unmoved pos hpos
    · exact List.mem_singleton.mp hpos

/-- Two handlers do not share a queue. -/
theorem injective (h : Wired s) {id id' : Str} {hd hd' : HandlerEntry P}
    (hlook : s.router.handlers.lookup id = some hd)
    (hlook' : s.router.handlers.lookup id' = some hd')
    (hq : hd'.queueIndex = hd.queueIndex) : id' = id := by
  obtain ⟨st, hst, hname, -⟩ := h.last id hd hlook
  obtain ⟨st', hst', hname', -⟩ := h.last id' hd' hlook'
  rw [hq, hst] at hst'
  rw [← hname, ← hname', Option.some.inj hst']

theorem lt_queues (h : Wired s) {id : Str} {hd : HandlerEntry P}
    (hlook : s.router.handlers.lookup id = some hd) : hd.queueIndex < s.router.queues.length := by
  obtain ⟨st, hst, -⟩ := h.last id hd hlook
  obtain ⟨hlt, -⟩ := List.getElem?_eq_some_iff.mp hst
  rw [h.queues]
  exact hlt

theorem unread (h : Wired s) (k : Nat) : s.router.unread k = [] := by
  unfold StreamRouter.unread
  split
  · rename_i q pos hq hp
    have hhead : q.ring.head = 0 := h.empty q (List.mem_of_getElem? hq)
    rw [RingBuffer.unread, hhead, h.unmoved pos (List.mem_of_getElem? hp)]
    rfl
  · rfl

end Wired

variable {env : Environment P} {cfg : Config} {p : PipelineState P}

theorem startPipeline_wired (h : startPipeline env cfg = .ok p) : Wired p :=
  startPipeline_keeps (fun _ line hs => hs.log line) (fun _ ep hs => hs.addEndpoint ep)
    (fun _ sec _ script _ hs => hs.registerScript sec script)
    (fun _ _ _ _ _ hs => ⟨hs.queues, hs.last, hs.registered, hs.empty, hs.unmoved, hs.silent⟩)
    ⟨rfl, nofun, nofun, nofun, nofun, rfl⟩ h

/-- What a start has set up stays as the turns go. -/
def WiredAs (p : PipelineState P) (s : Pipeline P) : Prop :=
  wiring s.router = wiring p.router ∧ s.router.Running

theorem WiredAs.step {s : Pipeline P} (h : WiredAs p s) (t : Turn) : WiredAs p (step p.scriptData s t) := by
  obtain ⟨hwire, hrun⟩ := step_keeps p.scriptData s t h.2
  exact ⟨hwire.trans h.1, hrun⟩

/-! ## A script of an id that a later one has -/

/-- Nothing has come to worker `i` since the start. -/
structure Starved (p : PipelineState P) (i : Nat) (s : Pipeline P) : Prop where
  wired : WiredAs p s
  queue : s.router.queues[i]? = p.router.queues[i]?
  position : s.router.readPositions[i]? = p.router.readPositions[i]?
  idle : s.actions (.worker i) = []
  untriggered : ∀ ev, (i, ev) ∉ s.triggers

/-- Only a handler leads an action to a queue. -/
theorem queue_perform (scripts : List (ScriptThread P)) (durationNs : UInt64) {r : StreamRouter P}
    {i : Nat} (hfree : ∀ id hd, r.handlers.lookup id = some hd → hd.queueIndex ≠ i)
    (a : Action P) :
    (perform scripts durationNs r a).1.queues[i]? = r.queues[i]? ∧
      (perform scripts durationNs r a).1.readPositions = r.readPositions := by
  cases a with
  | emit name ev => exact ⟨rfl, rfl⟩
  | route ev => exact ⟨rfl, rfl⟩
  | target ev id =>
      refine ⟨?_, (r.routeTarget_frame ev id).2.2.2⟩
      show (r.routeTarget ev id).queues[i]? = r.queues[i]?
      rcases routeTarget_cases r ev id with ⟨hd, hlook, heq⟩ | ⟨-, -, pub, tel, -, heq⟩ |
        ⟨-, -, hq⟩
      · rw [heq]
        exact List.getElem?_modify_ne _ _ (hfree id hd hlook)
      · rw [heq]
      · rw [hq.queues]
  | dispatch k ev =>
      rw [perform]
      cases scripts[k]? with
      | none => exact ⟨rfl, rfl⟩
      | some st =>
          have hq := quiet_call st.dispatch r ev durationNs
          exact ⟨by rw [hq.queues], hq.readPositions⟩

theorem Starved.step (hwired : Wired p) {i : Nat}
    (hfree : ∀ id hd, p.router.handlers.lookup id = some hd → hd.queueIndex ≠ i)
    {s : Pipeline P} (h : Starved p i s) (t : Turn) : Starved p i (step p.scriptData s t) := by
  have hhandlers : s.router.handlers = p.router.handlers := congrArg Wiring.handlers h.wired.1
  -- the queue of a starved worker is as empty as it was made
  have hempty : ∀ ev pos r, s.router.waitForTrigger i ≠ (.returned (some ev) pos, r) := by
    intro ev pos r hwait
    obtain ⟨q, pos, hq, hp, hlt, -, -⟩ := waitForTrigger_returned hwait
    rw [h.queue] at hq
    rw [h.position] at hp
    have hhead : q.ring.head = 0 := hwired.empty q (List.mem_of_getElem? hq)
    rw [hhead, hwired.unmoved pos (List.mem_of_getElem? hp)] at hlt
    exact absurd hlt (by decide)
  have hrouter : (Server.step p.scriptData s t).router.queues[i]? = p.router.queues[i]? ∧
      (Server.step p.scriptData s t).router.readPositions[i]? = p.router.readPositions[i]? ∧
      ∀ ev, (i, ev) ∉ (Server.step p.scriptData s t).triggers := by
    rcases step_acts p.scriptData s t with ⟨-, hsame⟩ | ⟨a, K, -, -, hrouter, htrig, -⟩ |
      ⟨k, ev, pos, -, hwait, htrig, -⟩ | ⟨evs, -, hquiet, htrig, -⟩
    · rw [hsame]
      exact ⟨h.queue, h.position, h.untriggered⟩
    · obtain ⟨hqueue, hpos⟩ := queue_perform p.scriptData t.durationNs (r := s.router) (i := i)
        (by rw [hhandlers]; exact hfree) a
      rw [hrouter, hqueue, hpos, htrig]
      exact ⟨h.queue, h.position, h.untriggered⟩
    · have hki : k ≠ i := by
        rintro rfl
        exact hempty ev pos _ hwait
      obtain ⟨q, pos', -, -, -, -, hrouter⟩ := waitForTrigger_returned hwait
      rw [hrouter, htrig]
      refine ⟨h.queue, (List.getElem?_set_ne hki).trans h.position, fun ev' hmem => ?_⟩
      rcases List.mem_append.mp hmem with hmem | hmem
      · exact h.untriggered ev' hmem
      · exact hki (Prod.mk.inj (List.mem_singleton.mp hmem)).1.symm
    · rw [hquiet.queues, hquiet.readPositions, htrig]
      exact ⟨h.queue, h.position, h.untriggered⟩
  refine ⟨h.wired.step t, hrouter.1, hrouter.2.1, ?_, hrouter.2.2⟩
  rcases step_cases p.scriptData s t with ⟨-, hsame⟩ | ⟨a, rest, hactions, -, -, hnew⟩ |
    ⟨k, ev, pos, hthread, -, hwait, -, hnew⟩ | ⟨evs, hthread, -, -, -, -, hnew⟩
  · rw [hsame]
    exact h.idle
  · have hne : ThreadId.worker i ≠ t.thread := by
      intro heq
      rw [← heq, h.idle] at hactions
      cases hactions
    rw [hnew, Function.update_of_ne hne]
    exact h.idle
  · have hne : ThreadId.worker i ≠ t.thread := by
      rw [hthread]
      rintro heq
      obtain rfl := ThreadId.worker.inj heq
      exact hempty ev pos _ hwait
    rw [hnew, Function.update_of_ne hne]
    exact h.idle
  · have hne : ThreadId.worker i ≠ t.thread := by
      rw [hthread]
      exact nofun
    rw [hnew, Function.update_of_ne hne]
    exact h.idle

/-- **A shadowed script starves.** Where two loaded scripts have one id, no run hands the earlier one
an event: nothing is ever written to its queue, and its thread never does anything. -/
theorem shadowed_never_triggered (h : startPipeline env cfg = .ok p) {i j : Nat}
    {st st' : ScriptThread P} (hi : p.scriptData[i]? = some st) (hj : p.scriptData[j]? = some st')
    (hlt : i < j) (hid : st'.dispatch.script.id = st.dispatch.script.id) (turns : List Turn) :
    (∀ ev, (i, ev) ∉ (p.after turns).triggers) ∧ (p.after turns).router.unread i = [] ∧
      (p.after turns).actions (.worker i) = [] := by
  have hwired := startPipeline_wired h
  have hfree : ∀ id hd, p.router.handlers.lookup id = some hd → hd.queueIndex ≠ i := by
    rintro id hd hlook rfl
    obtain ⟨st₁, hst₁, hname, hlast⟩ := hwired.last id hd hlook
    rw [hi] at hst₁
    obtain rfl := Option.some.inj hst₁
    have hle := hlast j st' hj (hid.trans hname)
    omega
  have hstart : Starved p i (start p.router p.plugins) := by
    refine ⟨⟨rfl, (startPipeline_started h).running⟩, rfl, rfl, ?_, fun ev => List.not_mem_nil⟩
    show ((List.replicate p.router.queues.length [])[i]?).getD [] = []
    rw [List.getElem?_replicate]
    split <;> rfl
  have hend : Starved p i (p.after turns) :=
    foldl_keeps (fun s t hs => hs.step hwired hfree t) turns _ hstart
  refine ⟨hend.untriggered, ?_, hend.idle⟩
  rw [unread_congr hend.queue hend.position]
  exact hwired.unread i

/-- Two scripts of one id. -/
def twinsConfig : Config where
  sections := [twoStreamsSection, twoStreamsSection,
    routesSection (lit "s") (lit "f"), ingestorSection (lit "i.so") (lit "s")]

def twinsState : PipelineState 1 :=
  match startPipeline (returningEnv (lit "a")) twinsConfig with
  | .ok p => p
  | .error _ => { router := {} }

/-- The event is ingested and routed, the later script answers it, and metrics are packed. -/
def twinsTurns : List Turn := turns 3 (.ingestor 0) ++ turns 5 (.worker 1) ++ turns 2 .metrics

theorem shadowed_never_triggered_twins :
    (∀ ev, (0, ev) ∉ (twinsState.after twinsTurns).triggers) ∧
      (twinsState.after twinsTurns).router.unread 0 = [] ∧
      (twinsState.after twinsTurns).actions (.worker 0) = [] :=
  shadowed_never_triggered
    (show startPipeline (returningEnv (lit "a")) twinsConfig = .ok twinsState from rfl)
    (i := 0) (j := 1) rfl rfl (by decide) rfl twinsTurns

end Mawmaw.Server
