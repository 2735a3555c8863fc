import Mathlib.Data.List.Chain
import Mawmaw.Executor.PythonScript
import Mawmaw.Server.Startup
import Mawmaw.Server.Threads

/-!
# Re-injected events

What a script returns is routed again, and may trigger it again.

* `handedOn` : the events a turn enqueued or published, read off the router before and after it;
* `Traced` : a running pipeline with the events its workers re-injected, each with its trigger, and
  the events that were enqueued or published;
* `Bounded` : the depths grow along every re-injection, stay below the maximum where an event is
  handed on, and so bound every chain;
* `Guarded` : a turn in which the script has counted for itself, and nothing too deep is emitted to
  a target;
* `Traced.Inv` : every trigger was handed on before, or was never re-injected; kept by every turn;
* `lineage_bounded` : every run; `python_call_lineage` : scripts that cannot count.
-/

namespace Mawmaw.Lib

/-- A chain along which a rank grows, and all but its last element rank below `n`. -/
theorem length_le_of_isChain {α : Type} {R : α → α → Prop} (rank : α → Nat) (n : Nat)
    (h : ∀ a b, R a b → rank a < rank b ∧ rank a < n) (a : α) (as : List α) :
    List.IsChain R (a :: as) → as.length ≤ n - rank a := by
  induction as generalizing a with
  | nil =>
      intro _
      exact Nat.zero_le _
  | cons b as ih =>
      intro hchain
      obtain ⟨hab, hrest⟩ := List.isChain_cons_cons.mp hchain
      have hlen := ih b hrest
      obtain ⟨hlt, hn⟩ := h a b hab
      rw [List.length_cons]
      omega

section Zip
variable {α β : Type} {f : α → α → Option β} (h : ∀ a, f a a = none)
include h

theorem filterMap_zip_self (as : List α) : (as.zip as).filterMap (fun p => f p.1 p.2) = [] := by
  induction as with
  | nil => rfl
  | cons a as ih => rw [List.zip_cons_cons, List.filterMap_cons, h, ih]

/-- Two lists that differ in one place. -/
theorem filterMap_zip_modify (g : α → α) (as : List α) (i : Nat) :
    (as.zip (as.modify i g)).filterMap (fun p => f p.1 p.2)
      = (as[i]?.bind fun a => f a (g a)).toList := by
  induction as generalizing i with
  | nil => cases i <;> rfl
  | cons a as ih =>
      cases i with
      | zero =>
          rw [List.modify_zero_cons, List.zip_cons_cons, List.filterMap_cons,
            filterMap_zip_self h]
          cases hf : f a (g a) <;> simp [hf]
      | succ i =>
          rw [List.modify_succ_cons, List.zip_cons_cons, List.filterMap_cons, h, ih]
          rfl

end Zip

end Mawmaw.Lib

namespace Mawmaw.Server
open Mawmaw.Lib Mawmaw.Conf Mawmaw.Core Mawmaw.Pub Mawmaw.Executor

variable {P : Nat}

/-- The maximum the lineage depth is documented to have by default. -/
def maxLineage : UInt32 := 16

/-- A delivery to this target takes place. -/
def Wiring.takes (w : Wiring P) (id : Str) : Bool :=
  match w.handlers.lookup id with
  | some h => decide (h.queueIndex < w.queues)
  | none => w.hasEndpoint id

/-! ## What a turn hands on -/

/-- The event a queue has taken since it was `q`, if any. -/
def taken (q q' : ScriptQueue P) : Option (Event P) :=
  if q'.ring.writeSeq = q.ring.writeSeq then none else some (q'.ring.slot q.ring.writeSeq)

/-- The events enqueued or published from `r` to `r'`. -/
def handedOn (r r' : StreamRouter P) : List (Event P) :=
  (r'.delivered.drop r.delivered.length).map Prod.snd ++
    (r.queues.zip r'.queues).filterMap fun q => taken q.1 q.2

/-- What performing the action hands on. -/
def Action.handsOn (w : Wiring P) : Action P → List (Event P)
  | .target ev id => if w.takes id then [ev] else []
  | _ => []

theorem taken_self (q : ScriptQueue P) : taken q q = none := if_pos rfl

theorem taken_enqueue (q : ScriptQueue P) (ev : Event P) : taken q (q.enqueue ev) = some ev := by
  have hne : q.ring.writeSeq + 1 ≠ q.ring.writeSeq := by
    intro h
    have hadd := congrArg UInt64.toNat h
    rw [UInt64.toNat_add, UInt64.toNat_one] at hadd
    have := q.ring.writeSeq.toNat_lt
    omega
  have hslot := RingBuffer.slot_write q.ring ev q.ring.writeSeq
  rw [if_pos rfl] at hslot
  have hseq : (q.enqueue ev).ring.writeSeq ≠ q.ring.writeSeq := hne
  rw [taken, if_neg hseq, ScriptQueue.enqueue_ring, hslot]

theorem handedOn_of_eq {r r' : StreamRouter P} (hdelivered : r'.delivered = r.delivered)
    (hqueues : r'.queues = r.queues) : handedOn r r' = [] := by
  rw [handedOn, hdelivered, hqueues, List.drop_length, filterMap_zip_self taken_self]
  rfl

theorem handedOn_quiet {r r' : StreamRouter P} (h : Quiet r r') : handedOn r r' = [] :=
  handedOn_of_eq (by rw [StreamRouter.delivered, h.publisher]; rfl) h.queues

theorem handedOn_perform (scripts : List (ScriptThread P)) (durationNs : UInt64)
    (r : StreamRouter P) (a : Action P) :
    handedOn r (perform scripts durationNs r a).1 = a.handsOn (wiring r) := by
  cases a with
  | emit name ev => exact handedOn_of_eq rfl rfl
  | route ev => exact handedOn_quiet (quiet_routeBegin r ev)
  | target ev id =>
      show handedOn r (r.routeTarget ev id) = if (wiring r).takes id then [ev] else []
      rcases routeTarget_cases r ev id with ⟨hd, hlook, heq⟩ | ⟨hlook, hep, pub, tel, hpub, heq⟩ |
        ⟨hlook, hep, hq⟩
      · have htakes : (wiring r).takes id = decide (hd.queueIndex < r.queues.length) := by
          rw [Wiring.takes, hlook]
          rfl
        have hdelivered : (r.enqueue hd.queueIndex ev).delivered = r.delivered := rfl
        rw [heq, handedOn, hdelivered, List.drop_length, htakes]
        show (r.queues.zip (r.queues.modify hd.queueIndex fun q => q.enqueue ev)).filterMap _ = _
        rw [filterMap_zip_modify taken_self]
        by_cases hlt : hd.queueIndex < r.queues.length
        · rw [List.getElem?_eq_getElem hlt, Option.bind_some, taken_enqueue,
            if_pos (decide_eq_true hlt)]
          rfl
        · rw [List.getElem?_eq_none (Nat.le_of_not_lt hlt), if_neg (by simpa using hlt)]
          rfl
      · have htakes : (wiring r).takes id = true := by rw [Wiring.takes, hlook, hep]
        have hdelivered : (r.routeTarget ev id).delivered = r.delivered ++ [(id, ev)] := by
          rw [heq, StreamRouter.delivered, StreamRouter.delivered, hpub]
          rfl
        have hqueues : (r.routeTarget ev id).queues = r.queues := by rw [heq]
        rw [if_pos htakes, handedOn, hdelivered, hqueues, List.drop_left,
          filterMap_zip_self taken_self]
        rfl
      · have htakes : (wiring r).takes id = false := by rw [Wiring.takes, hlook, hep]
        rw [handedOn_quiet hq, htakes]
        rfl
  | dispatch i ev =>
      rw [perform]
      cases scripts[i]? with
      | none => exact handedOn_of_eq rfl rfl
      | some st => exact handedOn_quiet (quiet_call st.dispatch r ev durationNs)

/-- **One turn** hands on what its action does. -/
theorem handedOn_step (scripts : List (ScriptThread P)) (s : Pipeline P) (t : Turn) :
    handedOn s.router (step scripts s t).router
      = ((s.actions t.thread).head?.map (Action.handsOn (wiring s.router))).getD [] := by
  rcases step_cases scripts s t with ⟨hnil, hsame⟩ | ⟨a, rest, hactions, hrouter, -⟩ |
    ⟨_, _, _, -, hnil, hwait, -⟩ | ⟨_, -, hnil, -, hquiet, -⟩
  · rw [hnil, hsame]
    exact handedOn_of_eq rfl rfl
  · rw [hactions, hrouter]
    exact handedOn_perform scripts t.durationNs s.router a
  · obtain ⟨_, _, -, -, -, -, hrouter⟩ := waitForTrigger_returned hwait
    rw [hnil, hrouter]
    exact handedOn_of_eq rfl rfl
  · rw [hnil]
    exact handedOn_quiet hquiet

/-! ## What a worker re-injects -/

/-- The event worker `i` was handed last. -/
def triggerOf (triggers : List (Nat × Event P)) (i : Nat) : Option (Event P) :=
  (triggers.filter fun e => e.1 == i).getLast?.map Prod.snd

/-- The event a worker is about to pass to `route`, with its trigger. -/
def reinjected (s : Pipeline P) (t : Turn) : List (Event P × Event P) :=
  match t.thread, (s.actions t.thread).head? with
  | .worker i, some (.route ev) => (triggerOf s.triggers i).toList.map (·, ev)
  | _, _ => []

theorem triggerOf_append (triggers : List (Nat × Event P)) (i k : Nat) (ev : Event P) :
    triggerOf (triggers ++ [(i, ev)]) k = if i = k then some ev else triggerOf triggers k := by
  rw [triggerOf, List.filter_append]
  by_cases hik : i = k
  · have hlast : [(i, ev)].filter (fun e => e.1 == k) = [(i, ev)] := by simp [hik]
    rw [if_pos hik, hlast, List.getLast?_concat]
    rfl
  · have hnone : [(i, ev)].filter (fun e => e.1 == k) = [] := by simp [hik]
    rw [if_neg hik, hnone, List.append_nil]
    rfl

theorem mem_of_triggerOf {triggers : List (Nat × Event P)} {i : Nat} {ev : Event P}
    (h : triggerOf triggers i = some ev) : ∃ e ∈ triggers, e.2 = ev := by
  obtain ⟨e, he, rfl⟩ := Option.map_eq_some_iff.mp h
  exact ⟨e, (List.mem_filter.mp (List.mem_of_getLast? he)).1, rfl⟩

/-- A worker with something left to do keeps its trigger. -/
theorem triggerOf_step (scripts : List (ScriptThread P)) {s : Pipeline P} (t : Turn) {k : Nat}
    {a : Action P} (ha : a ∈ s.actions (.worker k)) :
    triggerOf (step scripts s t).triggers k = triggerOf s.triggers k := by
  rcases step_cases scripts s t with ⟨-, hsame⟩ | ⟨_, _, -, -, htrig, -⟩ |
    ⟨i, ev, _, hthread, hnil, -, htrig, -⟩ | ⟨_, -, -, -, -, htrig, -⟩
  · rw [hsame]
  · rw [htrig]
  · have hne : i ≠ k := by
      rintro rfl
      rw [← hthread, hnil] at ha
      exact absurd ha List.not_mem_nil
    rw [htrig, triggerOf_append, if_neg hne]
  · rw [htrig]

theorem mem_reinjected {s : Pipeline P} {t : Turn} {e : Event P × Event P}
    (h : e ∈ reinjected s t) : ∃ i rest, t.thread = .worker i ∧
      s.actions t.thread = .route e.2 :: rest ∧ triggerOf s.triggers i = some e.1 := by
  unfold reinjected at h
  split at h
  · rename_i i ev hthread hhead
    obtain ⟨trigger, htrigger, rfl⟩ := List.mem_map.mp h
    obtain ⟨rest, hrest⟩ := List.head?_eq_some_iff.mp hhead
    exact ⟨i, rest, hthread, hrest, Option.mem_toList.mp htrigger⟩
  · exact absurd h List.not_mem_nil

theorem reinjected_route {s : Pipeline P} {t : Turn} {i : Nat} {ev trigger : Event P}
    {rest : List (Action P)} (hthread : t.thread = .worker i)
    (hactions : s.actions t.thread = .route ev :: rest)
    (htrigger : triggerOf s.triggers i = some trigger) : (trigger, ev) ∈ reinjected s t := by
  rw [reinjected, hactions, hthread]
  show (trigger, ev) ∈ (triggerOf s.triggers i).toList.map (·, ev)
  rw [htrigger]
  exact List.mem_singleton.mpr rfl

/-! ## The guard -/

structure Traced (P : Nat) where
  pipeline : Pipeline P
  injected : List (Event P × Event P) := []
  handled : List (Event P) := []

/-- No target of the event's stream is registered, or the event is not too deep. -/
def Harmless (w : Wiring P) (ev : Event P) : Prop :=
  ∀ id ∈ UMap.getD w.routeTable ev.stream [], w.takes id = true → ev.lineageDepth < maxLineage

instance (w : Wiring P) (ev : Event P) : Decidable (Harmless w ev) :=
  inferInstanceAs (Decidable (∀ id ∈ UMap.getD w.routeTable ev.stream [],
    w.takes id = true → ev.lineageDepth < maxLineage))

/-- What goes through the pipeline needs no guard: a script returns events deeper than the trigger it
is called with, and an event that is emitted is harmless where it goes. -/
def Action.Guarded (scripts : List (ScriptThread P)) (durationNs : UInt64) (r : StreamRouter P) :
    Action P → Prop
  | .emit name ev => Harmless (wiring r) (rename name ev)
  | .dispatch i trigger => ∀ st ∈ scripts[i]?,
      ∀ ev ∈ (st.dispatch.call r trigger durationNs).1.emitted, trigger.lineageDepth < ev.lineageDepth
  | _ => True

instance (scripts : List (ScriptThread P)) (durationNs : UInt64) (r : StreamRouter P) :
    ∀ a : Action P, Decidable (a.Guarded scripts durationNs r)
  | .emit name ev => inferInstanceAs (Decidable (Harmless (wiring r) (rename name ev)))
  | .dispatch i trigger => inferInstanceAs (Decidable (∀ st ∈ scripts[i]?,
      ∀ ev ∈ (st.dispatch.call r trigger durationNs).1.emitted, trigger.lineageDepth < ev.lineageDepth))
  | .route _ => isTrue trivial
  | .target _ _ => isTrue trivial

namespace Traced

/-- One turn, and what it was seen to do. -/
def step (scripts : List (ScriptThread P)) (s : Traced P) (t : Turn) : Traced P where
  pipeline := Server.step scripts s.pipeline t
  injected := s.injected ++ reinjected s.pipeline t
  handled := s.handled ++ handedOn s.pipeline.router (Server.step scripts s.pipeline t).router

/-- The lineage guard works: a bound on the re-injections of every chain of events. -/
structure Bounded (s : Traced P) : Prop where
  increases : ∀ e ∈ s.injected, e.1.lineageDepth < e.2.lineageDepth
  below : ∀ ev ∈ s.handled, ev.lineageDepth < maxLineage
  short : ∀ e es, List.IsChain (fun e e' => (e, e') ∈ s.injected) (e :: es) →
    es.length ≤ maxLineage.toNat

def Guarded (scripts : List (ScriptThread P)) (s : Traced P) (t : Turn) : Prop :=
  ∀ a ∈ (s.pipeline.actions t.thread).head?, a.Guarded scripts t.durationNs s.pipeline.router

instance (scripts : List (ScriptThread P)) (s : Traced P) (t : Turn) :
    Decidable (Guarded scripts s t) :=
  inferInstanceAs (Decidable (∀ a ∈ (s.pipeline.actions t.thread).head?,
    a.Guarded scripts t.durationNs s.pipeline.router))

/-! ## The invariant -/

/-- The event was handed on, or it has depth 0. -/
def Known (handled : List (Event P)) (ev : Event P) : Prop := ev ∈ handled ∨ ev.lineageDepth = 0

theorem Known.mono {handled : List (Event P)} {ev : Event P} (h : Known handled ev)
    (more : List (Event P)) : Known (handled ++ more) ev :=
  h.imp_left fun h => List.mem_append_left more h

/-- Every slot of every queue. -/
def SlotsKnown (handled : List (Event P)) (r : StreamRouter P) : Prop :=
  ∀ q ∈ r.queues, ∀ seq, Known handled (q.ring.slot seq)

structure Inv (s : Traced P) : Prop where
  running : s.pipeline.router.Running
  slots : SlotsKnown s.handled s.pipeline.router
  triggers : ∀ e ∈ s.pipeline.triggers, Known s.handled e.2
  injected : ∀ e ∈ s.injected, Known s.handled e.1
  dispatches : ∀ t, ∀ a ∈ s.pipeline.actions t, ∀ i ev, a = .dispatch i ev →
    t = .worker i ∧ triggerOf s.pipeline.triggers i = some ev

theorem slotsKnown_enqueue {handled : List (Event P)} {r : StreamRouter P}
    (h : SlotsKnown handled r) {i : Nat} {ev : Event P}
    (hev : i < r.queues.length → Known handled ev) : SlotsKnown handled (r.enqueue i ev) := by
  intro q hq seq
  obtain ⟨k, hk, rfl⟩ := List.getElem_of_mem hq
  rw [length_queues_enqueue] at hk
  have hold := h _ (List.getElem_mem hk)
  simp only [StreamRouter.enqueue, List.getElem_modify]
  split
  · rename_i hik
    rw [ScriptQueue.enqueue_ring, RingBuffer.slot_write]
    split
    · exact hev (by omega)
    · exact hold seq
  · exact hold seq

theorem slotsKnown_perform {handled : List (Event P)} {scripts : List (ScriptThread P)}
    {durationNs : UInt64} {r : StreamRouter P} (h : SlotsKnown handled r) (a : Action P)
    (hknown : ∀ ev ∈ a.handsOn (wiring r), Known handled ev) :
    SlotsKnown handled (perform scripts durationNs r a).1 := by
  cases a with
  | emit name ev => exact h
  | route ev => exact h
  | target ev id =>
      show SlotsKnown handled (r.routeTarget ev id)
      rcases routeTarget_cases r ev id with ⟨hd, hlook, heq⟩ | ⟨-, -, pub, tel, -, heq⟩ |
        ⟨-, -, hq⟩
      · rw [heq]
        refine slotsKnown_enqueue h fun hlt => hknown ev ?_
        have htakes : (wiring r).takes id = true := by
          rw [Wiring.takes, hlook]
          exact decide_eq_true hlt
        rw [Action.handsOn, if_pos htakes]
        exact List.mem_singleton.mpr rfl
      · rw [heq]
        exact h
      · intro q hmem
        rw [hq.queues] at hmem
        exact h q hmem
  | dispatch i ev =>
      rw [perform]
      cases scripts[i]? with
      | none => exact h
      | some st =>
          intro q hmem
          rw [(quiet_call st.dispatch r ev durationNs).queues] at hmem
          exact h q hmem

/-- A dispatch is handed to a worker, it is not what an action leads to. -/
theorem perform_not_dispatch (scripts : List (ScriptThread P)) (durationNs : UInt64)
    (r : StreamRouter P) (a : Action P) :
    ∀ b ∈ (perform scripts durationNs r a).2, ∀ i ev, b ≠ .dispatch i ev := by
  intro b hb i ev
  rcases mem_perform hb with ⟨_, _, -, rfl⟩ | ⟨_, _, -, -, rfl⟩ | ⟨_, _, _, _, -, -, -, rfl⟩
  · exact nofun
  · exact nofun
  · exact nofun

/-- The queues after a turn hold what was handed on, and so do the triggers. -/
theorem step_known (scripts : List (ScriptThread P)) {s : Pipeline P} {t : Turn}
    {handled : List (Event P)} (hslots : SlotsKnown handled s.router)
    (htriggers : ∀ e ∈ s.triggers, Known handled e.2)
    (hnew : ∀ ev ∈ handedOn s.router (Server.step scripts s t).router, Known handled ev) :
    SlotsKnown handled (Server.step scripts s t).router ∧
      ∀ e ∈ (Server.step scripts s t).triggers, Known handled e.2 := by
  rcases step_cases scripts s t with ⟨-, hsame⟩ | ⟨a, rest, hactions, hrouter, htrig, -⟩ |
    ⟨i, ev, _, -, -, hwait, htrig, -⟩ | ⟨_, -, -, -, hquiet, htrig, -⟩
  · rw [hsame]
    exact ⟨hslots, htriggers⟩
  · rw [handedOn_step, hactions] at hnew
    rw [hrouter, htrig]
    exact ⟨slotsKnown_perform hslots a hnew, htriggers⟩
  · obtain ⟨q, pos, hq, -, -, hev, hrouter⟩ := waitForTrigger_returned hwait
    rw [hrouter, htrig, List.forall_mem_append, List.forall_mem_singleton, hev]
    exact ⟨hslots, htriggers, hslots q (List.mem_of_getElem? hq) pos⟩
  · rw [htrig]
    refine ⟨fun q hmem => ?_, htriggers⟩
    rw [hquiet.queues] at hmem
    exact hslots q hmem

theorem Inv.step {s : Traced P} (h : Inv s) (scripts : List (ScriptThread P)) (t : Turn) :
    Inv (s.step scripts t) := by
  have hslots : SlotsKnown (s.step scripts t).handled (s.step scripts t).pipeline.router ∧
      ∀ e ∈ (s.step scripts t).pipeline.triggers, Known (s.step scripts t).handled e.2 :=
    step_known scripts (fun q hq seq => (h.slots q hq seq).mono _)
      (fun e he => (h.triggers e he).mono _) fun ev hev => Or.inl (List.mem_append_right _ hev)
  refine ⟨(step_keeps scripts s.pipeline t h.running).2, hslots.1, hslots.2, fun e he => ?_, ?_⟩
  · rcases List.mem_append.mp he with he | he
    · exact (h.injected e he).mono _
    · obtain ⟨i, rest, -, -, htrigger⟩ := mem_reinjected he
      obtain ⟨e', he', heq⟩ := mem_of_triggerOf htrigger
      rw [← heq]
      exact (h.triggers e' he').mono _
  · show ∀ t', ∀ a ∈ (Server.step scripts s.pipeline t).actions t', ∀ i ev, a = .dispatch i ev →
      t' = .worker i ∧ triggerOf (Server.step scripts s.pipeline t).triggers i = some ev
    apply step_threads
    · intro t' a ha i ev heq
      obtain ⟨hthread, htrigger⟩ := h.dispatches t' a ha i ev heq
      rw [hthread] at ha
      exact ⟨hthread, (triggerOf_step scripts t ha).trans htrigger⟩
    · exact fun _ _ _ b hb i ev heq => absurd heq (perform_not_dispatch _ _ _ _ b hb i ev)
    · intro i ev pos _ _ htrig i' ev' heq
      obtain ⟨rfl, rfl⟩ := Action.dispatch.inj heq
      rw [htrig, triggerOf_append, if_pos rfl]
      exact ⟨rfl, rfl⟩
    · exact fun _ _ => nofun

/-- Depths that grow along the re-injections, and stay below the maximum where an event is handed
on, bound every chain. -/
theorem Bounded.of_depths {s : Traced P} (h : Inv s)
    (hincreases : ∀ e ∈ s.injected, e.1.lineageDepth < e.2.lineageDepth)
    (hbelow : ∀ ev ∈ s.handled, ev.lineageDepth < maxLineage) : Bounded s := by
  refine ⟨hincreases, hbelow, fun e es hchain => ?_⟩
  refine le_trans (length_le_of_isChain (fun ev : Event P => ev.lineageDepth.toNat)
    maxLineage.toNat (fun a b hab => ⟨?_, ?_⟩) e es hchain) (Nat.sub_le _ _)
  · exact UInt32.lt_iff_toNat_lt.mp (hincreases _ hab)
  · rcases h.injected _ hab with hhandled | hzero
    · exact UInt32.lt_iff_toNat_lt.mp (hbelow _ hhandled)
    · rw [hzero]
      decide

/-! ## Guarded runs -/

theorem rename_lineageDepth (name : Str) (ev : Event P) :
    (rename name ev).lineageDepth = ev.lineageDepth := by
  unfold rename Event.setStream
  split
  · rfl
  · rfl

/-- Worker `i` is on no trigger as deep as `ev`. -/
def Deeper (triggers : List (Nat × Event P)) (i : Nat) (ev : Event P) : Prop :=
  ∀ trigger, triggerOf triggers i = some trigger → trigger.lineageDepth < ev.lineageDepth

/-- What the guards of the turns so far say of an action to come. -/
def Checked (w : Wiring P) (triggers : List (Nat × Event P)) (t : ThreadId) : Action P → Prop
  | .emit _ ev => ∀ i, t = .worker i → Deeper triggers i ev
  | .route ev => (∀ i, t = .worker i → Deeper triggers i ev) ∧ Harmless w ev
  | .target ev id => w.takes id = true → ev.lineageDepth < maxLineage
  | .dispatch _ _ => True

structure Safe (s : Traced P) : Prop where
  inv : Inv s
  checked : ∀ t, ∀ a ∈ s.pipeline.actions t,
    Checked (wiring s.pipeline.router) s.pipeline.triggers t a
  increases : ∀ e ∈ s.injected, e.1.lineageDepth < e.2.lineageDepth
  below : ∀ ev ∈ s.handled, ev.lineageDepth < maxLineage

/-- What a guarded action leads to is checked. -/
theorem checked_perform {scripts : List (ScriptThread P)} {s : Traced P} (h : Inv s) {t : Turn}
    {a : Action P} {rest : List (Action P)} (hactions : s.pipeline.actions t.thread = a :: rest)
    (ha : Checked (wiring s.pipeline.router) s.pipeline.triggers t.thread a)
    (hguard : a.Guarded scripts t.durationNs s.pipeline.router) :
    ∀ b ∈ (perform scripts t.durationNs s.pipeline.router a).2,
      Checked (wiring s.pipeline.router) s.pipeline.triggers t.thread b := by
  intro b hb
  rcases mem_perform hb with ⟨name, ev, rfl, rfl⟩ | ⟨ev, id, rfl, hid, rfl⟩ |
    ⟨i, trigger, st, ev, rfl, hst, hev, rfl⟩
  · refine ⟨fun i hthread trigger htrigger => ?_, hguard⟩
    rw [rename_lineageDepth]
    exact ha i hthread trigger htrigger
  · exact ha.2 id hid
  · intro i' hthread trigger' htrigger'
    -- the worker's trigger is the one the script was called with
    obtain ⟨hown, htrigger⟩ := h.dispatches t.thread _ (hactions ▸ List.mem_cons_self) i trigger rfl
    obtain rfl := ThreadId.worker.inj (hown.symm.trans hthread)
    obtain rfl := Option.some.inj (htrigger.symm.trans htrigger')
    exact hguard st hst ev hev

/-- A worker that has something to do keeps its trigger, so what was checked stays so. -/
theorem Checked.step (scripts : List (ScriptThread P)) {w : Wiring P} {s : Pipeline P} (t : Turn)
    {t' : ThreadId} {a b : Action P} (ha : a ∈ s.actions t') (hb : Checked w s.triggers t' b) :
    Checked w (Server.step scripts s t).triggers t' b := by
  have hdeeper : ∀ ev, (∀ i, t' = .worker i → Deeper s.triggers i ev) →
      ∀ i, t' = .worker i → Deeper (Server.step scripts s t).triggers i ev := by
    intro ev hev i hthread trigger htrigger
    rw [hthread] at ha
    rw [triggerOf_step scripts t ha] at htrigger
    exact hev i hthread trigger htrigger
  cases b with
  | emit name ev => exact hdeeper ev hb
  | route ev => exact ⟨hdeeper ev hb.1, hb.2⟩
  | target ev id => exact hb
  | dispatch i ev => exact hb

/-- A checked action hands on nothing too deep. -/
theorem Checked.below {w : Wiring P} {triggers : List (Nat × Event P)} {t : ThreadId} {a : Action P}
    (h : Checked w triggers t a) : ∀ ev ∈ a.handsOn w, ev.lineageDepth < maxLineage := by
  intro ev hev
  cases a with
  | target ev' id =>
      rw [Action.handsOn] at hev
      split at hev
      · rename_i htakes
        rw [List.mem_singleton.mp hev]
        exact h htakes
      · exact absurd hev List.not_mem_nil
  | emit _ _ | route _ | dispatch _ _ => exact absurd hev List.not_mem_nil

theorem Safe.step {scripts : List (ScriptThread P)} {s : Traced P} {t : Turn} (h : Safe s)
    (hguard : Guarded scripts s t) : Safe (s.step scripts t) := by
  have hwire := (step_keeps scripts s.pipeline t h.inv.running).1
  refine ⟨h.inv.step scripts t, ?_, fun e he => ?_, fun ev hev => ?_⟩
  · show ∀ t', ∀ a ∈ (Server.step scripts s.pipeline t).actions t',
      Checked (wiring (Server.step scripts s.pipeline t).router)
        (Server.step scripts s.pipeline t).triggers t' a
    rw [hwire]
    apply step_threads
    · exact fun t' a ha => (h.checked t' a ha).step scripts t ha
    · intro a rest hactions b hb
      have hmem : a ∈ s.pipeline.actions t.thread := by
        rw [hactions]
        exact List.mem_cons_self
      refine (checked_perform h.inv hactions (h.checked _ a hmem) ?_ b hb).step scripts t hmem
      exact hguard a (by rw [hactions]; rfl)
    · exact fun _ _ _ _ _ _ => trivial
    · exact fun ev hzero => ⟨nofun, fun _ _ _ => by rw [hzero]; decide⟩
  · rcases List.mem_append.mp he with he | he
    · exact h.increases e he
    · obtain ⟨i, rest, hthread, hactions, htrigger⟩ := mem_reinjected he
      have hroute : Checked (wiring s.pipeline.router) s.pipeline.triggers t.thread (.route e.2) :=
        h.checked t.thread _ (hactions ▸ List.mem_cons_self)
      exact hroute.1 i hthread e.1 htrigger
  · rcases List.mem_append.mp hev with hev | hev
    · exact h.below ev hev
    · rw [handedOn_step] at hev
      cases hactions : s.pipeline.actions t.thread with
      | nil =>
          rw [hactions] at hev
          exact absurd hev List.not_mem_nil
      | cons a rest =>
          rw [hactions] at hev
          exact (h.checked t.thread a (hactions ▸ List.mem_cons_self)).below ev hev

/-! ## Turns that break the guard -/

section Breaks
variable (scripts : List (ScriptThread P)) {s : Traced P} {t : ThreadId} {ev : Event P}
  {rest : List (Action P)}

theorem foldl_pipeline (ts : List Turn) : ∀ s : Traced P,
    (ts.foldl (step scripts) s).pipeline = run scripts s.pipeline ts := by
  induction ts with
  | nil => exact fun _ => rfl
  | cons t ts ih => exact fun s => ih (s.step scripts t)

/-- A thread alone leads to a state that is not bounded. -/
def Breaks (s : Traced P) (t : ThreadId) : Prop :=
  ∃ n, ¬ Bounded ((turns n t).foldl (step scripts) s)

variable {scripts}

theorem Breaks.later {m : Nat} (h : Breaks scripts ((turns m t).foldl (step scripts) s) t) :
    Breaks scripts s t := by
  obtain ⟨n, hn⟩ := h
  refine ⟨m + n, ?_⟩
  rw [turns_add, List.foldl_append]
  exact hn

theorem Breaks.next (h : Breaks scripts (s.step scripts { thread := t }) t) :
    Breaks scripts s t := h.later (m := 1)

theorem breaks_target {id : Str} (hactions : s.pipeline.actions t = .target ev id :: rest)
    (htakes : (wiring s.pipeline.router).takes id = true)
    (hdeep : ¬ ev.lineageDepth < maxLineage) : Breaks scripts s t := by
  refine ⟨1, fun hbounded => hdeep (hbounded.below ev (List.mem_append_right _ ?_))⟩
  rw [handedOn_step]
  show ev ∈ ((s.pipeline.actions t).head?.map _).getD []
  rw [hactions]
  show ev ∈ if (wiring s.pipeline.router).takes id then [ev] else []
  rw [if_pos htakes]
  exact List.mem_singleton.mpr rfl

theorem breaks_route (h : Inv s) (hactions : s.pipeline.actions t = .route ev :: rest)
    (hharm : ¬ Harmless (wiring s.pipeline.router) ev) : Breaks scripts s t := by
  unfold Harmless at hharm
  simp only [not_forall] at hharm
  obtain ⟨id, hid, htakes, hdeep⟩ := hharm
  obtain ⟨before, after, htargets⟩ := List.append_of_mem hid
  have hrouted := performed_step scripts { thread := t } hactions
  have hown := hrouted.own
  have hlist : (perform scripts 0 s.pipeline.router (.route ev)).2
      = before.map (.target ev) ++ .target ev id :: after.map (.target ev) := by
    have htargets' : s.pipeline.router.targets ev = before ++ id :: after := htargets
    rw [perform, htargets', List.map_append, List.map_cons]
  rw [hlist, List.append_assoc] at hown
  have hbefore := run_targets scripts ev before hown
  have hend := foldl_pipeline scripts (turns before.length t) (s.step scripts { thread := t })
  have htarget : ((turns before.length t).foldl (step scripts)
      (s.step scripts { thread := t })).pipeline.actions t
        = .target ev id :: after.map (.target ev) ++ rest := by
    rw [hend]
    exact hbefore.own
  have hwire : wiring ((turns before.length t).foldl (step scripts)
      (s.step scripts { thread := t })).pipeline.router = wiring s.pipeline.router := by
    rw [hend]
    obtain ⟨hfirst, hrun⟩ := step_keeps scripts s.pipeline { thread := t } h.running
    exact (run_wiring scripts _ _ hrun).1.trans hfirst
  exact (Breaks.later (m := before.length)
    (breaks_target htarget (by rw [hwire]; exact htakes) hdeep)).next

theorem breaks_depth {i : Nat} {name : Str} {trigger : Event P}
    (hactions : s.pipeline.actions (.worker i) = .emit name ev :: rest)
    (htrigger : triggerOf s.pipeline.triggers i = some trigger)
    (hdepth : ¬ trigger.lineageDepth < ev.lineageDepth) : Breaks scripts s (.worker i) := by
  have hemitted := performed_step scripts { thread := .worker i } hactions
  refine Breaks.next ⟨1, fun hbounded => hdepth ?_⟩
  have hmem := reinjected_route (t := { thread := .worker i }) rfl hemitted.own
    ((congrArg (triggerOf · i) hemitted.triggers).trans htrigger)
  have hlt := hbounded.increases _ (List.mem_append_right _ hmem)
  rw [rename_lineageDepth] at hlt
  exact hlt

end Breaks

/-- A turn that is not guarded is one after which the thread alone breaks the bound. -/
theorem breaks_of_not_guarded {scripts : List (ScriptThread P)} {s : Traced P} (h : Inv s) {t : Turn}
    (hbad : ¬ Guarded scripts s t) : Breaks scripts (s.step scripts t) t.thread := by
  unfold Guarded at hbad
  simp only [not_forall] at hbad
  obtain ⟨a, hhead, hbad⟩ := hbad
  obtain ⟨rest, hactions⟩ := List.head?_eq_some_iff.mp hhead
  have hdone := performed_step scripts t hactions
  cases a with
  | emit name ev =>
      refine breaks_route (h.step scripts t) hdone.own ?_
      show ¬ Harmless (wiring (Server.step scripts s.pipeline t).router) _
      rw [(step_keeps scripts s.pipeline t h.running).1]
      exact hbad
  | dispatch i trigger =>
      unfold Action.Guarded at hbad
      simp only [not_forall] at hbad
      obtain ⟨st, hst, ev, hev, hdepth⟩ := hbad
      obtain ⟨hthread, htrigger⟩ :=
        h.dispatches t.thread _ (hactions ▸ List.mem_cons_self) i trigger rfl
      obtain ⟨before, after, hemitted⟩ := List.append_of_mem hev
      -- the events returned before this one are emitted first
      have hown := hdone.own
      rw [perform, show scripts[i]? = some st from hst] at hown
      dsimp only at hown
      rw [hemitted, List.map_append, List.append_assoc] at hown
      obtain ⟨n, r, hbefore⟩ := run_emits scripts before hown
      have hend := foldl_pipeline scripts (turns n t.thread) (s.step scripts t)
      refine Breaks.later (m := n) ?_
      rw [hthread] at hend hbefore ⊢
      have hemit : ((turns n (.worker i)).foldl (Traced.step scripts)
          (s.step scripts t)).pipeline.actions (.worker i)
            = .emit st.outputStream ev :: (after.map (.emit st.outputStream) ++ rest) := by
        rw [hend]
        exact hbefore.own
      refine breaks_depth hemit ?_ hdepth
      rw [hend]
      exact (congrArg (triggerOf · i) (hbefore.triggers.trans hdone.triggers)).trans htrigger
  | route ev => exact absurd trivial hbad
  | target ev id => exact absurd trivial hbad

end Traced

/-! ## Started pipelines -/

variable {env : Environment P} {cfg : Config} {p : PipelineState P}

/-- The started pipeline `p`, before its first turn. -/
def PipelineState.traced (p : PipelineState P) : Traced P :=
  { pipeline := start p.router p.plugins }

/-- No queue of a started pipeline has been written to. -/
theorem startPipeline_slots (h : startPipeline env cfg = .ok p) :
    Traced.SlotsKnown [] p.router := by
  refine @startPipeline_keeps P (fun s => Traced.SlotsKnown [] s.router) env cfg p
    (fun _ _ hs => hs) (fun _ _ hs => hs) (fun s sec _ script _ hs => ?_)
    (fun _ _ _ _ _ hs => hs) nofun h
  intro q hq seq
  rcases List.mem_append.mp hq with hq | hq
  · exact hs q hq seq
  · rw [List.mem_singleton.mp hq]
    have hslot : (RingBuffer.new defaultQueueCapacity : RingBuffer (Event P)).slot seq = default :=
      Vector.getElem_replicate _
    exact Or.inr (by rw [hslot]; rfl)

theorem traced_safe (h : startPipeline env cfg = .ok p) : Traced.Safe p.traced where
  inv :=
    { running := (startPipeline_started h).running
      slots := startPipeline_slots h
      triggers := nofun
      injected := nofun
      dispatches := fun t a ha i ev heq => by
        obtain ⟨j, g, ev', -, -, hemit⟩ := start_actions ha
        rw [hemit] at heq
        cases heq }
  checked t a ha := by
    obtain ⟨j, g, ev, rfl, -, rfl⟩ := start_actions ha
    exact nofun
  increases := nofun
  below := nofun

/-- **The lineage guard.** In every run of every started pipeline whose turns are all guarded, the
re-injections are bounded by the lineage depth in every state. The pipeline itself neither counts
them nor tests the count: after any run, a turn that is not guarded leads to a state in which they
are not bounded, once its thread has gone on. -/
theorem lineage_bounded (h : startPipeline env cfg = .ok p) (turns : List Turn) :
    (Along (Traced.step p.scriptData) (Traced.Guarded p.scriptData) p.traced turns →
      ∀ pre, pre <+: turns → Traced.Bounded (pre.foldl (Traced.step p.scriptData) p.traced)) ∧
    ∀ t, ¬ Traced.Guarded p.scriptData (turns.foldl (Traced.step p.scriptData) p.traced) t →
      ∃ n, ¬ Traced.Bounded
        ((turns ++ t :: Server.turns n t.thread).foldl (Traced.step p.scriptData) p.traced) := by
  constructor
  · rintro hguarded pre ⟨post, rfl⟩
    have hsafe := Along.keeps (fun s t hs ht => Traced.Safe.step hs ht) (traced_safe h)
      (Along.append.mp hguarded).1
    exact .of_depths hsafe.inv hsafe.increases hsafe.below
  · intro t hbad
    have hinv : Traced.Inv (turns.foldl (Traced.step p.scriptData) p.traced) :=
      foldl_keeps (fun s t hs => hs.step p.scriptData t) turns _ (traced_safe h).inv
    obtain ⟨n, hn⟩ := Traced.breaks_of_not_guarded hinv hbad
    refine ⟨n, ?_⟩
    rw [List.foldl_append]
    exact hn

/-- What a Python script returns has depth 0, so it is deeper than no trigger. -/
theorem python_call_lineage {d : Dispatch P} {id : Str}
    {onTrigger : List (ScriptCall P) → PyDict → UMap String (List PyDict) → PyResult}
    (hd : d.script = pythonScript id fun earlier => invokeSnapshot (onTrigger earlier))
    (r : StreamRouter P) (trigger : Event P) (durationNs : UInt64) :
    ∀ ev ∈ (d.call r trigger durationNs).1.emitted, ¬ trigger.lineageDepth < ev.lineageDepth := by
  intro ev hev
  have hzero : ev.lineageDepth = 0 := by
    unfold Dispatch.call at hev
    rw [hd] at hev
    exact invokeSnapshot_lineageDepth _ _ ev hev
  rw [hzero, UInt32.lt_iff_toNat_lt]
  exact Nat.not_lt_zero _

/-- The script returns `f` of its trigger on the stream that triggers it. -/
def cycleEnv (f : Event 1 → List (Event 1)) : Environment 1 where
  openEndpoint _ := .ok ()
  loadPython _ _ := .error (lit "no module")
  loadWasm _ _ := .ok fun _ input _ => { emitted := f input.triggerEvent }
  loadPlugin _ := .ok [({} : Event 1).setStream (lit "s")]

def cycleConfig : Config where
  sections := [scriptSection (lit "f") (lit "wasm") (lit "s") (lit "s"),
    routesSection (lit "s") (lit "f, stdout"), ingestorSection (lit "i.so") []]

def cycleState (f : Event 1 → List (Event 1)) : PipelineState 1 :=
  match startPipeline (cycleEnv f) cycleConfig with
  | .ok p => p
  | .error _ => { router := {} }

/-- A script that counts, twice. -/
def countsTwice (ev : Event 1) : List (Event 1) :=
  if ev.lineageDepth < 2 then [{ ev with lineageDepth := ev.lineageDepth + 1 }] else []

/-- The ingestor's event on its way to the script, and its re-injections. -/
def cycleTurns : List Turn := turns 4 (.ingestor 0) ++ turns 14 (.worker 0)

theorem lineage_bounded_cycle :
    (∀ pre, pre <+: cycleTurns → Traced.Bounded (pre.foldl
        (Traced.step (cycleState countsTwice).scriptData) (cycleState countsTwice).traced)) ∧
      ∃ n, ¬ Traced.Bounded ((turns 4 (.ingestor 0) ++ turns 1 (.worker 0) ++
        { thread := .worker 0 } :: turns n (.worker 0)).foldl
          (Traced.step (cycleState fun ev => [ev]).scriptData) (cycleState fun ev => [ev]).traced) :=
  ⟨(lineage_bounded (show startPipeline (cycleEnv countsTwice) cycleConfig
      = .ok (cycleState countsTwice) from rfl) cycleTurns).1 (by decide +kernel),
    (lineage_bounded (show startPipeline (cycleEnv fun ev => [ev]) cycleConfig
      = .ok (cycleState fun ev => [ev]) from rfl) (turns 4 (.ingestor 0) ++ turns 1 (.worker 0))).2
      { thread := .worker 0 } (by decide +kernel)⟩

/-- A script that returns its trigger. -/
theorem cycle_not_bounded :
    ¬ ∀ (env : Environment 1) (cfg : Config) (p : PipelineState 1), startPipeline env cfg = .ok p →
      ∀ turns : List Turn, Traced.Bounded (turns.foldl (Traced.step p.scriptData) p.traced) := by
  intro h
  have hbounded := h (cycleEnv fun ev => [ev]) cycleConfig (cycleState fun ev => [ev]) rfl cycleTurns
  exact absurd hbounded.increases (by decide +kernel)

end Mawmaw.Server
