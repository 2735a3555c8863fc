import Mathlib.Logic.Function.Basic
import Mawmaw.Lib.Schedule
import Mawmaw.Server.Schedules

/-!
# What a turn does

* `start_actions` : what the threads have to do at first;
* `step_cases` : a turn changes nothing, performs the thread's next action, hands an idle worker the
  next event of its queue, or packs metrics;
* `run_wiring` : no run changes the routes, the handlers or the endpoints;
* `step_threads`, `run_threads` : what each action, each trigger and each pack keeps of the actions to
  come, every run keeps;
* `Performed`, `run_emit` : a thread that is not interrupted renames its event and routes it as
  `StreamRouter.route` does.
-/

namespace Mawmaw.Server
open Mawmaw.Lib Mawmaw.Core Mawmaw.Pub

variable {P : Nat}

section Set
variable (s : Pipeline P) (as : List (Action P)) (r : StreamRouter P)

theorem actions_set_worker {i : Nat} (hi : i < s.workers.length) (triggers : List (Nat × Event P)) :
    Pipeline.actions { s with router := r, workers := s.workers.set i as, triggers }
      = Function.update s.actions (.worker i) as := by
  funext t
  rcases t with k | k | _
  · by_cases hk : k = i
    · subst hk
      simp [Pipeline.actions, hi]
    · have hne : ThreadId.worker k ≠ .worker i := fun h => hk (ThreadId.worker.inj h)
      simp [Pipeline.actions, Function.update_of_ne hne, List.getElem?_set_ne (Ne.symm hk)]
  · rfl
  · rfl

theorem actions_set_ingestor {j : Nat} (hj : j < s.ingestors.length) :
    Pipeline.actions { s with router := r, ingestors := s.ingestors.set j as }
      = Function.update s.actions (.ingestor j) as := by
  funext t
  rcases t with k | k | _
  · rfl
  · by_cases hk : k = j
    · subst hk
      simp [Pipeline.actions, hj]
    · have hne : ThreadId.ingestor k ≠ .ingestor j := fun h => hk (ThreadId.ingestor.inj h)
      simp [Pipeline.actions, Function.update_of_ne hne, List.getElem?_set_ne (Ne.symm hk)]
  · rfl

theorem actions_set_metrics (packing : Option UInt64) :
    Pipeline.actions { s with router := r, metrics := as, packing }
      = Function.update s.actions .metrics as := by
  funext t
  cases t <;> rfl

end Set

/-- Before the first turn an ingestor has its events to emit, and the other threads nothing to do. -/
theorem start_actions {r : StreamRouter P} {ings : List (Ingestor P)} {t : ThreadId}
    {a : Action P} (ha : a ∈ (start r ings).actions t) :
    ∃ j g ev, t = .ingestor j ∧ ings[j]? = some g ∧ a = .emit g.renameTo ev := by
  cases t with
  | worker i =>
      have hnil : (start r ings).actions (.worker i) = [] := by
        simp only [Pipeline.actions, start, List.getElem?_replicate]
        split <;> rfl
      rw [hnil] at ha
      exact absurd ha List.not_mem_nil
  | ingestor j =>
      simp only [Pipeline.actions, start, List.getElem?_map] at ha
      cases hg : ings[j]? with
      | none =>
          rw [hg] at ha
          exact absurd ha List.not_mem_nil
      | some g =>
          rw [hg] at ha
          obtain ⟨ev, -, rfl⟩ := List.mem_map.mp ha
          exact ⟨j, g, ev, rfl, hg, rfl⟩
  | metrics => exact absurd ha List.not_mem_nil

/-- What an action leaves to do: an event to route, a target of it, or an event a script returned. -/
theorem mem_perform {scripts : List (ScriptThread P)} {durationNs : UInt64} {r : StreamRouter P}
    {a b : Action P} (hb : b ∈ (perform scripts durationNs r a).2) :
    (∃ name ev, a = .emit name ev ∧ b = .route (rename name ev)) ∨
    (∃ ev id, a = .route ev ∧ id ∈ r.targets ev ∧ b = .target ev id) ∨
    ∃ i trigger st ev, a = .dispatch i trigger ∧ scripts[i]? = some st ∧
      ev ∈ (st.dispatch.call r trigger durationNs).1.emitted ∧ b = .emit st.outputStream ev := by
  cases a with
  | emit name ev => exact Or.inl ⟨name, ev, rfl, List.mem_singleton.mp hb⟩
  | route ev =>
      obtain ⟨id, hid, rfl⟩ := List.mem_map.mp hb
      exact Or.inr (Or.inl ⟨ev, id, rfl, hid, rfl⟩)
  | target ev id => exact absurd hb List.not_mem_nil
  | dispatch i trigger =>
      rw [perform] at hb
      cases hst : scripts[i]? with
      | none =>
          rw [hst] at hb
          exact absurd hb List.not_mem_nil
      | some st =>
          rw [hst] at hb
          obtain ⟨ev, hev, rfl⟩ := List.mem_map.mp hb
          exact Or.inr (Or.inr ⟨i, trigger, st, ev, rfl, hst, hev, rfl⟩)

/-- **One turn** of a thread. -/
theorem step_cases (scripts : List (ScriptThread P)) (s : Pipeline P) (t : Turn) :
    (s.actions t.thread = [] ∧ step scripts s t = s) ∨
    (∃ a rest, s.actions t.thread = a :: rest ∧
      (step scripts s t).router = (perform scripts t.durationNs s.router a).1 ∧
      (step scripts s t).triggers = s.triggers ∧
      (step scripts s t).actions = Function.update s.actions t.thread
        ((perform scripts t.durationNs s.router a).2 ++ rest)) ∨
    (∃ i ev pos, t.thread = .worker i ∧ s.actions t.thread = [] ∧
      s.router.waitForTrigger i = (.returned (some ev) pos, (step scripts s t).router) ∧
      (step scripts s t).triggers = s.triggers ++ [(i, ev)] ∧
      (step scripts s t).actions = Function.update s.actions t.thread [.dispatch i ev]) ∨
    (∃ evs : List (Event P), t.thread = .metrics ∧ s.actions t.thread = [] ∧
      (∀ ev ∈ evs, ev.lineageDepth = 0) ∧ Quiet s.router (step scripts s t).router ∧
      (step scripts s t).triggers = s.triggers ∧
      (step scripts s t).actions = Function.update s.actions t.thread (evs.map .route)) := by
  have heffect := step_effect scripts s t
  generalize step scripts s t = s' at heffect ⊢
  cases heffect with
  | idle hidle => exact Or.inl ⟨hidle, rfl⟩
  | @ingestor j a rest hthread hj =>
      rw [hthread]
      obtain ⟨hlt, -⟩ := List.getElem?_eq_some_iff.mp hj
      have hactions : s.actions (.ingestor j) = a :: rest := by rw [Pipeline.actions, hj]; rfl
      exact Or.inr (Or.inl ⟨a, rest, hactions, rfl, rfl, actions_set_ingestor s _ _ hlt⟩)
  | @worker i a rest hthread hi =>
      rw [hthread]
      obtain ⟨hlt, -⟩ := List.getElem?_eq_some_iff.mp hi
      have hactions : s.actions (.worker i) = a :: rest := by rw [Pipeline.actions, hi]; rfl
      exact Or.inr (Or.inl ⟨a, rest, hactions, rfl, rfl, actions_set_worker s _ _ hlt _⟩)
  | @trigger i ev pos _ hthread hi hwait =>
      rw [hthread]
      obtain ⟨hlt, -⟩ := List.getElem?_eq_some_iff.mp hi
      have hactions : s.actions (.worker i) = [] := by rw [Pipeline.actions, hi]; rfl
      exact Or.inr (Or.inr (Or.inl ⟨i, ev, pos, rfl, hactions, hwait, rfl,
        actions_set_worker s _ _ hlt _⟩))
  | @metrics a rest hthread hm =>
      rw [hthread]
      exact Or.inr (Or.inl ⟨a, rest, hm, rfl, rfl, actions_set_metrics s _ _ _⟩)
  | @pack tel evs packing hthread hm hzero =>
      rw [hthread]
      exact Or.inr (Or.inr (Or.inr ⟨evs, rfl, hm, hzero, quiet_tel s.router tel, rfl,
        actions_set_metrics s _ _ _⟩))

theorem run_wiring (scripts : List (ScriptThread P)) (turns : List Turn) :
    ∀ s : Pipeline P, s.router.Running →
      wiring (run scripts s turns).router = wiring s.router ∧ (run scripts s turns).router.Running := by
  induction turns with
  | nil =>
      intro s hrun
      exact ⟨rfl, hrun⟩
  | cons t turns ih =>
      intro s hrun
      obtain ⟨hwire, hrun'⟩ := step_keeps scripts s t hrun
      obtain ⟨hwires, hruns⟩ := ih (step scripts s t) hrun'
      exact ⟨hwires.trans hwire, hruns⟩

/-- A property of the actions to come of each thread holds after a turn, if it does before, and of
what the performed action leads to, of the dispatch of a trigger and of the events of a pack. -/
theorem step_threads {scripts : List (ScriptThread P)} {s : Pipeline P} {t : Turn}
    {I : ThreadId → Action P → Prop} (h : ∀ t, ∀ a ∈ s.actions t, I t a)
    (hperform : ∀ a rest, s.actions t.thread = a :: rest →
      ∀ b ∈ (perform scripts t.durationNs s.router a).2, I t.thread b)
    (htrigger : ∀ i ev pos, s.actions t.thread = [] →
      s.router.waitForTrigger i = (.returned (some ev) pos, (step scripts s t).router) →
      (step scripts s t).triggers = s.triggers ++ [(i, ev)] → I (.worker i) (.dispatch i ev))
    (hpack : ∀ ev : Event P, ev.lineageDepth = 0 → I .metrics (.route ev)) :
    ∀ t', ∀ a ∈ (step scripts s t).actions t', I t' a := by
  rcases step_cases scripts s t with ⟨-, hsame⟩ | ⟨a, rest, hactions, -, -, hnew⟩ |
    ⟨i, ev, pos, hthread, hnil, hwait, htrig, hnew⟩ | ⟨evs, hthread, -, hzero, -, -, hnew⟩
  · rw [hsame]
    exact h
  · have hall := h t.thread
    rw [hactions] at hall
    rw [hnew, Function.forall_update_iff s.actions fun t as => ∀ a ∈ as, I t a]
    refine ⟨fun b hb => ?_, fun t' _ => h t'⟩
    rcases List.mem_append.mp hb with hb | hb
    · exact hperform a rest hactions b hb
    · exact hall b (List.mem_cons_of_mem a hb)
  · rw [hnew, Function.forall_update_iff s.actions fun t as => ∀ a ∈ as, I t a]
    refine ⟨fun b hb => ?_, fun t' _ => h t'⟩
    rw [List.mem_singleton.mp hb, hthread]
    exact htrigger i ev pos hnil hwait htrig
  · rw [hnew, Function.forall_update_iff s.actions fun t as => ∀ a ∈ as, I t a]
    refine ⟨fun b hb => ?_, fun t' _ => h t'⟩
    obtain ⟨ev, hev, rfl⟩ := List.mem_map.mp hb
    rw [hthread]
    exact hpack ev (hzero ev hev)

/-- What every action leads to keeps, and what holds of the dispatch of every trigger and of every
event of a pack, holds throughout a run. -/
theorem run_threads {scripts : List (ScriptThread P)} {I : ThreadId → Action P → Prop}
    (hperform : ∀ t durationNs r a, I t a → ∀ b ∈ (perform scripts durationNs r a).2, I t b)
    (htrigger : ∀ i ev, I (.worker i) (.dispatch i ev)) (hpack : ∀ ev, I .metrics (.route ev))
    (turns : List Turn) :
    ∀ s : Pipeline P, (∀ t, ∀ a ∈ s.actions t, I t a) →
      ∀ t, ∀ a ∈ (run scripts s turns).actions t, I t a := by
  have hstep : ∀ (s : Pipeline P) (t : Turn), (∀ t, ∀ a ∈ s.actions t, I t a) →
      ∀ t', ∀ a ∈ (step scripts s t).actions t', I t' a := by
    intro s t h
    refine step_threads h (fun a rest hactions => ?_) (fun i ev _ _ _ _ => htrigger i ev)
      fun ev _ => hpack ev
    have hall := h t.thread
    rw [hactions] at hall
    exact hperform t.thread t.durationNs s.router a (hall a List.mem_cons_self)
  exact foldl_keeps hstep turns

/-! ## A thread without interruption -/

/-- From `s` to `s'`, thread `t` alone has taken turns: `rest` is left to it and the router is `r`. -/
structure Performed (s : Pipeline P) (t : ThreadId) (r : StreamRouter P) (rest : List (Action P))
    (s' : Pipeline P) : Prop where
  router : s'.router = r
  triggers : s'.triggers = s.triggers
  packing : s'.packing = s.packing
  actions : s'.actions = Function.update s.actions t rest

section Alone
variable (scripts : List (ScriptThread P)) {s s' s'' : Pipeline P} {t : ThreadId}
  {r r' : StreamRouter P} {rest rest' : List (Action P)}

theorem Performed.refl (h : s.actions t = rest) : Performed s t s.router rest s where
  router := rfl
  triggers := rfl
  packing := rfl
  actions := by rw [← h, Function.update_eq_self]

theorem Performed.own (h : Performed s t r rest s') : s'.actions t = rest := by
  rw [h.actions, Function.update_self]

theorem Performed.trans (h : Performed s t r rest s') (h' : Performed s' t r' rest' s'') :
    Performed s t r' rest' s'' where
  router := h'.router
  triggers := h'.triggers.trans h.triggers
  packing := h'.packing.trans h.packing
  actions := by rw [h'.actions, h.actions, Function.update_idem]

/-- Only an idle telemetry thread packs. -/
theorem step_packing (turn : Turn) {a : Action P} (h : s.actions turn.thread = a :: rest) :
    (step scripts s turn).packing = s.packing := by
  have heffect := step_effect scripts s turn
  generalize step scripts s turn = s' at heffect ⊢
  cases heffect with
  | idle _ | ingestor _ _ | worker _ _ | trigger _ _ _ | metrics _ _ => rfl
  | pack hthread hm _ =>
      have hactions : s.metrics = a :: rest := by
        rw [hthread] at h
        exact h
      rw [hm] at hactions
      cases hactions

theorem performed_step (turn : Turn) {a : Action P} (h : s.actions turn.thread = a :: rest) :
    Performed s turn.thread (perform scripts turn.durationNs s.router a).1
      ((perform scripts turn.durationNs s.router a).2 ++ rest) (step scripts s turn) := by
  rcases step_cases scripts s turn with ⟨hnil, -⟩ | ⟨a', rest', hactions, hrouter, htriggers, hnew⟩ |
    ⟨_, _, _, -, hnil, -⟩ | ⟨_, -, hnil, -⟩
  · rw [h] at hnil
    cases hnil
  · obtain ⟨rfl, rfl⟩ := List.cons.inj (h.symm.trans hactions)
    exact ⟨hrouter, htriggers, step_packing scripts turn h, hnew⟩
  · rw [h] at hnil
    cases hnil
  · rw [h] at hnil
    cases hnil

theorem run_cons (turn : Turn) (ts : List Turn) :
    run scripts s (turn :: ts) = run scripts (step scripts s turn) ts := rfl

theorem run_append (ts us : List Turn) :
    run scripts s (ts ++ us) = run scripts (run scripts s ts) us := List.foldl_append

theorem turns_succ (n : Nat) (t : ThreadId) : turns (n + 1) t = { thread := t } :: turns n t := rfl

theorem turns_add (m n : Nat) (t : ThreadId) : turns (m + n) t = turns m t ++ turns n t :=
  List.replicate_add _ _ _

theorem run_targets (ev : Event P) (ids : List Str) :
    ∀ {s : Pipeline P}, s.actions t = ids.map (.target ev) ++ rest →
      Performed s t (ids.foldl (fun r id => r.routeTarget ev id) s.router) rest
        (run scripts s (turns ids.length t)) := by
  induction ids with
  | nil =>
      intro s h
      exact .refl h
  | cons id ids ih =>
      intro s h
      have hstep := performed_step scripts { thread := t } h
      have hrest := ih hstep.own
      rw [hstep.router] at hrest
      rw [List.length_cons, turns_succ, run_cons, List.foldl_cons]
      exact hstep.trans hrest

theorem run_route {ev : Event P} (h : s.actions t = .route ev :: rest) :
    Performed s t (s.router.route ev) rest
      (run scripts s (turns ((s.router.targets ev).length + 1) t)) := by
  have hstep := performed_step scripts { thread := t } h
  have hrest := run_targets scripts ev (s.router.targets ev) hstep.own
  rw [hstep.router] at hrest
  rw [turns_succ, run_cons]
  exact hstep.trans hrest

/-- Routing some events, one after the other. -/
theorem run_routes (evs : List (Event P)) :
    ∀ {s : Pipeline P}, s.actions t = evs.map .route ++ rest →
      ∃ n, Performed s t (evs.foldl StreamRouter.route s.router) rest (run scripts s (turns n t)) := by
  induction evs with
  | nil =>
      intro s h
      exact ⟨0, .refl h⟩
  | cons ev evs ih =>
      intro s h
      have hfirst := run_route scripts h
      obtain ⟨n, hrest⟩ := ih hfirst.own
      rw [hfirst.router] at hrest
      refine ⟨(s.router.targets ev).length + 1 + n, ?_⟩
      rw [turns_add, run_append, List.foldl_cons]
      exact hfirst.trans hrest

/-- Renaming an event and routing it to its last target. -/
theorem run_emit {name : Str} {ev : Event P} (h : s.actions t = .emit name ev :: rest) :
    Performed s t (s.router.route (rename name ev)) rest
      (run scripts s (turns ((s.router.targets (rename name ev)).length + 2) t)) := by
  have hstep := performed_step scripts { thread := t } h
  have hroute : (step scripts s { thread := t }).actions t = .route (rename name ev) :: rest :=
    hstep.own
  have hrest := run_route scripts hroute
  rw [hstep.router] at hrest
  rw [turns_succ, run_cons]
  exact hstep.trans hrest

/-- Emitting some events, one after the other. -/
theorem run_emits {name : Str} (evs : List (Event P)) :
    ∀ {s : Pipeline P}, s.actions t = evs.map (.emit name) ++ rest →
      ∃ n r, Performed s t r rest (run scripts s (turns n t)) := by
  induction evs with
  | nil =>
      intro s h
      exact ⟨0, s.router, .refl h⟩
  | cons ev evs ih =>
      intro s h
      have hfirst := run_emit scripts h
      obtain ⟨n, r, hrest⟩ := ih hfirst.own
      refine ⟨(s.router.targets (rename name ev)).length + 2 + n, r, ?_⟩
      rw [turns_add, run_append]
      exact hfirst.trans hrest

end Alone

end Mawmaw.Server
