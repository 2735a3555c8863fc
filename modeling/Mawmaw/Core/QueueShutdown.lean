import Mathlib.Algebra.BigOperators.Group.Finset.Piecewise
import Mathlib.Algebra.Order.BigOperators.Group.Finset
import Mawmaw.Lib.Ledger
import Mawmaw.Lib.Progress
import Mawmaw.Core.QueueWaiting

/-!
# Stopping a worker

The queue of `Waiting` once `stop_all_queues` has set its flag.

* `HeldInv` : whoever has the mutex is about to give it back;
* `due` : whether the worker is past the test of the flag with an event in view;
  `handed_at_most_once`;
* `WorkerPhase.rank`, `CallerPhase.rank`, `Waiting.rank` : how far everybody is from being done;
  `stopped_runsDown` : every turn lowers it or changes nothing, and some turn lowers it;
* `stop_ends_worker` : any fair schedule.
-/

namespace Mawmaw.Core
open Mawmaw.Lib

variable {P : Nat} {ι : Type}

/-! ## Ranks -/

/-- How many steps the worker has at most in front of it, once the queue is stopped. -/
def WorkerPhase.rank : WorkerPhase P → Nat
  | .returned none => 0
  | .unlocking none => 1
  | .checkStopped => 2
  | .testStopped _ _ => 3
  | .testPos _ => 4
  | .testHead => 5
  | .locking | .relocking => 6
  | .outside | .blocked | .returned (some _) => 7
  | .unlocking (some _) => 8
  | .copyEvent _ => 9
  | .storePos _ => 10
  | .readHead _ => 11
  | .loadHead _ => 12
  | .loadPos => 13

def CallerPhase.rank : CallerPhase → Nat
  | .done => 0
  | .notified => 1
  | .locked => 2
  | .acted => 3
  | .stored _ => 4
  | .loaded _ => 5
  | .idle => 6

/-- Whether the worker may still return an event without testing the flag again. -/
def WorkerPhase.due : WorkerPhase P → Nat
  | .loadPos | .loadHead _ | .readHead _ | .storePos _ | .copyEvent _ | .unlocking (some _) => 1
  | _ => 0

namespace Waiting

/-- A turn hands an event to the worker's caller. -/
def handed (s : Waiting P ι) (t : WaitingTurn ι) : Nat :=
  match t, s.worker with
  | .worker, .unlocking (some _) => 1
  | _, _ => 0

/-- Whoever has the mutex is about to give it back. -/
structure HeldInv (s : Waiting P ι) : Prop where
  worker : s.mtx = some .worker → s.worker.holds = true
  caller : ∀ i, s.mtx = some (.caller i) → s.caller i = .locked ∨ s.caller i = .notified

theorem HeldInv.of_free {s : Waiting P ι} (hmtx : s.mtx = none) : HeldInv s where
  worker hm := absurd (hmtx.symm.trans hm) (Option.some_ne_none _).symm
  caller _ hm := absurd (hmtx.symm.trans hm) (Option.some_ne_none _).symm

theorem HeldInv.of_worker {s : Waiting P ι} (hmtx : s.mtx = some .worker)
    (hholds : s.worker.holds = true) : HeldInv s where
  worker _ := hholds
  caller i hm := by cases hmtx.symm.trans hm

theorem HeldInv.of_caller {s : Waiting P ι} {i : ι} (hmtx : s.mtx = some (.caller i))
    (hholds : s.caller i = .locked ∨ s.caller i = .notified) : HeldInv s where
  worker hm := by cases hmtx.symm.trans hm
  caller j hm := by
    obtain rfl := Holder.caller.inj (Option.some.inj (hmtx.symm.trans hm))
    exact hholds

theorem heldInv_init (ring : RingBuffer (Event P)) (readPos : UInt64) :
    HeldInv (init ring readPos : Waiting P ι) := .of_free rfl

/-- A step that keeps the mutex, and the worker's and the callers' hold on it. -/
theorem HeldInv.keeps {s s' : Waiting P ι} (h : HeldInv s) (hmtx : s'.mtx = s.mtx)
    (hworker : s.worker.holds = true → s'.worker.holds = true)
    (hcaller : ∀ i, s.caller i = .locked ∨ s.caller i = .notified →
      s'.caller i = .locked ∨ s'.caller i = .notified) : HeldInv s' where
  worker hm := hworker (h.worker (hmtx.symm.trans hm))
  caller i hm := hcaller i (h.caller i (hmtx.symm.trans hm))

theorem HeldInv.workerStep {s : Waiting P ι} (h : HeldInv s) : HeldInv s.workerStep := by
  have hheld := h.worker
  cases hw : s.worker with
  | outside | blocked | copyEvent pos | storePos pos | loadPos | testPos head | testHead =>
      simp only [Waiting.workerStep, hw]
      refine h.keeps rfl (fun hh => ?_) fun i hi => hi
      rw [hw] at hh
      first | exact hh | cases hh
  | returned result =>
      cases result <;> simp only [Waiting.workerStep, hw]
      · exact h
      · refine h.keeps rfl (fun hh => ?_) fun i hi => hi
        rw [hw] at hh
        cases hh
  | locking | relocking =>
      simp only [Waiting.workerStep, hw]
      split
      · exact .of_worker rfl rfl
      · exact h
  | testStopped head pos =>
      simp only [Waiting.workerStep, hw]
      split
      · exact h.keeps rfl (fun _ => rfl) fun i hi => hi
      · exact .of_free rfl
  | checkStopped | loadHead pos | readHead pos =>
      simp only [Waiting.workerStep, hw]
      split <;> exact h.keeps rfl (fun _ => rfl) fun i hi => hi
  | unlocking result =>
      simp only [Waiting.workerStep, hw]
      exact .of_free rfl

theorem HeldInv.notify {s : Waiting P ι} (h : HeldInv s) : HeldInv s.notify := by
  unfold Waiting.notify
  split
  · rename_i hblocked
    refine h.keeps rfl (fun hh => ?_) fun i hi => hi
    rw [hblocked] at hh
    cases hh
  · exact h

section Calls
variable [DecidableEq ι]

/-- A call that has not got the mutex, or keeps it, goes on. -/
theorem HeldInv.advance {s : Waiting P ι} (h : HeldInv s) (s' : Waiting P ι) (i : ι)
    (x : CallerPhase) (hmtx : s'.mtx = s.mtx) (hworker : s'.worker = s.worker)
    (hcaller : s'.caller = s.caller)
    (hx : s.caller i = .locked ∨ s.caller i = .notified → x = .notified) :
    HeldInv (s'.advance i x) := by
  refine h.keeps hmtx (fun hh => ?_) fun j hj => ?_
  · exact hworker.symm ▸ hh
  · by_cases hji : j = i
    · subst hji
      rw [advance_caller_self]
      exact Or.inr (hx hj)
    · rw [advance_caller_ne _ _ hji, hcaller]
      exact hj

theorem HeldInv.callerStep {s : Waiting P ι} (h : HeldInv s) (task : ι → CallerTask P) (i : ι) :
    HeldInv (s.callerStep task i) := by
  cases hpc : s.caller i with
  | idle =>
      have hfree : ¬ (s.caller i = .locked ∨ s.caller i = .notified) := by simp [hpc]
      simp only [Waiting.callerStep, hpc]
      split
      · exact h.advance s i _ rfl rfl rfl (absurd · hfree)
      · exact h.advance { s with queue := { s.queue with stopped := true } } i _ rfl rfl rfl (absurd · hfree)
  | loaded seq =>
      have hfree : ¬ (s.caller i = .locked ∨ s.caller i = .notified) := by simp [hpc]
      simp only [Waiting.callerStep, hpc]
      split
      · exact h.advance (s.storeSlot seq _) i _ rfl rfl rfl (absurd · hfree)
      · exact h
  | stored seq =>
      have hfree : ¬ (s.caller i = .locked ∨ s.caller i = .notified) := by simp [hpc]
      simp only [Waiting.callerStep, hpc]
      exact h.advance (s.storeSeq (seq + 1)) i _ rfl rfl rfl (absurd · hfree)
  | acted =>
      simp only [Waiting.callerStep, hpc]
      split
      · exact .of_caller rfl (Or.inl (advance_caller_self _ _ _))
      · exact h
  | locked =>
      simp only [Waiting.callerStep, hpc]
      exact h.notify.advance s.notify i _ rfl rfl rfl fun _ => rfl
  | notified =>
      simp only [Waiting.callerStep, hpc]
      exact .of_free rfl
  | done =>
      simp only [Waiting.callerStep, hpc]
      exact h

theorem HeldInv.step (task : ι → CallerTask P) (s : Waiting P ι) (t : WaitingTurn ι)
    (h : HeldInv s) : HeldInv (s.step task t) := by
  cases t with
  | worker => exact h.workerStep
  | spurious => exact h.notify
  | caller i => exact h.callerStep task i

end Calls

/-! ## The flag stays set -/

theorem stopped_workerStep {s : Waiting P ι} : s.workerStep.queue = s.queue := by
  unfold workerStep
  split <;> (first | rfl | split <;> rfl)

theorem notify_queue (s : Waiting P ι) : s.notify.queue = s.queue := by
  unfold notify
  split <;> rfl

theorem stopped_step [DecidableEq ι] (task : ι → CallerTask P) (s : Waiting P ι)
    (t : WaitingTurn ι) (h : s.queue.stopped = true) : (s.step task t).queue.stopped = true := by
  cases t with
  | worker =>
      show s.workerStep.queue.stopped = true
      rw [stopped_workerStep]
      exact h
  | spurious =>
      show s.notify.queue.stopped = true
      rw [notify_queue]
      exact h
  | caller i =>
      show (s.callerStep task i).queue.stopped = true
      unfold callerStep
      split
      · split
        · exact h
        · rfl
      · split <;> exact h
      · exact h
      · split <;> exact h
      · show s.notify.queue.stopped = true
        rw [notify_queue]
        exact h
      · exact h
      · exact h

/-! ## At most one more event -/

theorem due_workerStep {s : Waiting P ι} (h : s.queue.stopped = true) :
    s.handed .worker + s.workerStep.worker.due ≤ s.worker.due := by
  cases hw : s.worker with
  | returned result | unlocking result =>
      cases result <;> simp [handed, workerStep, hw, WorkerPhase.due]
  | locking | relocking =>
      simp only [handed, workerStep, hw]
      split <;> simp [hw, WorkerPhase.due]
  | testStopped head pos =>
      simp [handed, workerStep, hw, WorkerPhase.due, h]
  | checkStopped => simp [handed, workerStep, hw, WorkerPhase.due, h]
  | loadHead pos | readHead pos =>
      simp only [handed, workerStep, hw]
      split <;> simp [WorkerPhase.due]
  | outside | testHead | testPos head | blocked | loadPos | storePos pos | copyEvent pos =>
      simp [handed, workerStep, hw, WorkerPhase.due]

theorem due_notify (s : Waiting P ι) : s.notify.worker.due ≤ s.worker.due := by
  unfold notify
  split
  · exact Nat.zero_le _
  · exact Nat.le_refl _

section Calls
variable [DecidableEq ι]

/-- What a call's turn does to the worker. -/
theorem worker_callerStep (task : ι → CallerTask P) (s : Waiting P ι) (i : ι) :
    (s.callerStep task i).worker = s.worker ∨ (s.callerStep task i).worker = s.notify.worker := by
  unfold callerStep
  split
  · split <;> exact Or.inl rfl
  · split <;> exact Or.inl rfl
  · exact Or.inl rfl
  · split <;> exact Or.inl rfl
  · exact Or.inr rfl
  · exact Or.inl rfl
  · exact Or.inl rfl

theorem due_step (task : ι → CallerTask P) (s : Waiting P ι) (t : WaitingTurn ι)
    (h : s.queue.stopped = true) : s.handed t + (s.step task t).worker.due ≤ s.worker.due := by
  cases t with
  | worker => exact due_workerStep h
  | spurious => exact (Nat.zero_add _).trans_le (due_notify s)
  | caller i =>
      show 0 + (s.callerStep task i).worker.due ≤ _
      rw [Nat.zero_add]
      rcases worker_callerStep task s i with hsame | hnotified
      · rw [hsame]
      · rw [hnotified]
        exact due_notify s

theorem due_le_one (w : WorkerPhase P) : w.due ≤ 1 := by
  unfold WorkerPhase.due
  split <;> omega

/-- From the moment the flag is set the worker is handed one event at most. -/
theorem handed_at_most_once (task : ι → CallerTask P) {s : Waiting P ι}
    (h : s.queue.stopped = true) (turns : List (WaitingTurn ι)) :
    gained (step task) handed s turns ≤ 1 := by
  have hpaid := gained_le (fun s : Waiting P ι => s.queue.stopped = true)
    (fun s => s.worker.due) (stopped_step task) (due_step task) turns s h
  exact (Nat.le_add_right _ _).trans (hpaid.trans (due_le_one s.worker))

end Calls

/-! ## The worker's end -/

theorem rank_workerStep {s : Waiting P ι} (h : s.queue.stopped = true) :
    s.workerStep = s ∨
      s.workerStep.worker.rank < s.worker.rank ∧ s.workerStep.caller = s.caller := by
  cases hw : s.worker with
  | returned result =>
      cases result with
      | none =>
          left
          simp only [workerStep, hw]
      | some ev =>
          right
          simp [workerStep, hw, WorkerPhase.rank]
  | unlocking result =>
      right
      cases result <;> simp [workerStep, hw, WorkerPhase.rank]
  | locking | relocking =>
      by_cases hm : s.mtx = none
      · right
        simp [workerStep, hw, WorkerPhase.rank, hm]
      · left
        simp [workerStep, hw, hm]
  | blocked =>
      left
      simp only [workerStep, hw]
  | testStopped head pos | checkStopped =>
      right
      simp [workerStep, hw, WorkerPhase.rank, h]
  | loadHead pos | readHead pos =>
      right
      simp only [workerStep, hw]
      split <;> simp [WorkerPhase.rank]
  | outside | testHead | testPos head | loadPos | storePos pos | copyEvent pos =>
      right
      simp [workerStep, hw, WorkerPhase.rank]

theorem rank_notify (s : Waiting P ι) :
    (s.notify = s ∨ s.notify.worker.rank < s.worker.rank) ∧ s.notify.caller = s.caller := by
  unfold notify
  split
  · rename_i hblocked
    refine ⟨Or.inr ?_, rfl⟩
    rw [hblocked]
    exact Nat.lt_succ_self 6
  · exact ⟨Or.inl rfl, rfl⟩

section Calls
variable [DecidableEq ι] [Fintype ι]

/-- How many turns are left at most that change something. -/
def rank (s : Waiting P ι) : Nat := s.worker.rank + ∑ i, (s.caller i).rank

omit [DecidableEq ι] in
theorem rank_lt_of_worker {s s' : Waiting P ι} (hworker : s'.worker.rank < s.worker.rank)
    (hcaller : s'.caller = s.caller) : s'.rank < s.rank := by
  unfold rank
  rw [hcaller]
  omega

theorem rank_advance_lt {s s' : Waiting P ι} (hworker : s'.worker.rank ≤ s.worker.rank)
    (hcaller : s'.caller = s.caller) {i : ι} {x : CallerPhase} (hx : x.rank < (s.caller i).rank) :
    (s'.advance i x).rank < s.rank := by
  have hsum : ∑ j, ((s'.advance i x).caller j).rank < ∑ j, (s.caller j).rank := by
    refine Finset.sum_lt_sum (fun j _ => ?_) ⟨i, Finset.mem_univ i, ?_⟩
    · by_cases hji : j = i
      · subst hji
        rw [advance_caller_self]
        exact Nat.le_of_lt hx
      · rw [advance_caller_ne _ _ hji, hcaller]
    · rw [advance_caller_self]
      exact hx
  have hw : (s'.advance i x).worker.rank ≤ s.worker.rank := hworker
  unfold rank
  omega

theorem rank_callerStep (task : ι → CallerTask P) (s : Waiting P ι) (i : ι) :
    s.callerStep task i = s ∨ (s.callerStep task i).rank < s.rank := by
  cases hpc : s.caller i with
  | idle =>
      right
      simp only [callerStep, hpc]
      split <;> exact rank_advance_lt (s := s) (Nat.le_refl _) rfl (by simp [hpc, CallerPhase.rank])
  | loaded seq =>
      simp only [callerStep, hpc]
      split
      · exact Or.inr (rank_advance_lt (s := s) (Nat.le_refl _) rfl (by simp [hpc, CallerPhase.rank]))
      · exact Or.inl rfl
  | stored seq =>
      right
      simp only [callerStep, hpc]
      exact rank_advance_lt (s := s) (Nat.le_refl _) rfl (by simp [hpc, CallerPhase.rank])
  | acted =>
      simp only [callerStep, hpc]
      split
      · exact Or.inr (rank_advance_lt (s := s) (Nat.le_refl _) rfl (by simp [hpc, CallerPhase.rank]))
      · exact Or.inl rfl
  | locked =>
      right
      simp only [callerStep, hpc]
      have hnotify := rank_notify s
      refine rank_advance_lt ?_ hnotify.2 (by simp [hpc, CallerPhase.rank])
      rcases hnotify.1 with hsame | hlt
      · rw [hsame]
      · exact Nat.le_of_lt hlt
  | notified =>
      right
      simp only [callerStep, hpc]
      exact rank_advance_lt (s := s) (Nat.le_refl _) rfl (by simp [hpc, CallerPhase.rank])
  | done =>
      left
      simp only [callerStep, hpc]

/-- The holder of the mutex, if it is a call, or a call that waits for a free one goes on. -/
theorem live_callerStep (task : ι → CallerTask P) {s : Waiting P ι} {i : ι}
    (h : s.caller i = .locked ∨ s.caller i = .notified ∨ s.caller i = .acted ∧ s.mtx = none) :
    (s.callerStep task i).rank < s.rank := by
  rcases rank_callerStep task s i with hsame | hlt
  · exfalso
    have hcaller := congrArg (fun s => s.caller i) hsame
    rcases h with h | h | ⟨h, hm⟩
    · simp only [callerStep, h, advance_caller_self] at hcaller
      cases hcaller
    · simp only [callerStep, h, advance_caller_self] at hcaller
      cases hcaller
    · simp only [callerStep, h, hm, if_true, advance_caller_self] at hcaller
      cases hcaller
  · exact hlt

/-- What a stopped queue's worker relies on. -/
structure StoppedInv (s : Waiting P ι) : Prop where
  stopped : s.queue.stopped = true
  wake : WakeInv s
  held : HeldInv s

/-- A worker that does not go on by itself waits for a call that does. -/
theorem StoppedInv.live (task : ι → CallerTask P) {s : Waiting P ι} (h : StoppedInv s)
    (hdone : s.worker ≠ .returned none) :
    ∃ t, t ≠ WaitingTurn.spurious ∧ (s.step task t).rank < s.rank := by
  by_cases hstuck : s.workerStep = s
  · -- the worker is blocked, or waits for the mutex
    have hwaits : s.worker.holds = false ∧ (s.mtx = none → ∃ i, s.caller i = .acted ∨
        s.caller i = .locked) := by
      have hworker := congrArg (·.worker) hstuck
      cases hw : s.worker with
      | blocked =>
          refine ⟨rfl, fun _ => ?_⟩
          have hann := h.wake.announced
          unfold Announced at hann
          rw [hw] at hann
          exact hann (Or.inr h.stopped)
      | locking | relocking =>
          refine ⟨rfl, fun hm => ?_⟩
          simp only [workerStep, hw, hm, if_true] at hworker
          cases hworker
      | returned result =>
          cases result with
          | none => exact absurd hw hdone
          | some ev =>
              simp only [workerStep, hw] at hworker
              cases hworker
      | unlocking result =>
          simp only [workerStep, hw] at hworker
          cases hworker
      | testStopped head pos | checkStopped =>
          simp [workerStep, hw, h.stopped] at hworker
      | loadHead pos | readHead pos =>
          simp only [workerStep, hw] at hworker
          split at hworker <;> cases hworker
      | outside | testHead | testPos head | loadPos | storePos pos | copyEvent pos =>
          simp only [workerStep, hw] at hworker
          cases hworker
    cases hm : s.mtx with
    | none =>
        obtain ⟨i, hi⟩ := hwaits.2 hm
        refine ⟨.caller i, (by rintro ⟨⟩), live_callerStep task ?_⟩
        rcases hi with hi | hi
        · exact Or.inr (Or.inr ⟨hi, hm⟩)
        · exact Or.inl hi
    | some holder =>
        cases holder with
        | worker =>
            have := h.held.worker hm
            rw [hwaits.1] at this
            cases this
        | caller i =>
            refine ⟨.caller i, (by rintro ⟨⟩), live_callerStep task ?_⟩
            rcases h.held.caller i hm with hi | hi
            · exact Or.inl hi
            · exact Or.inr (Or.inl hi)
  · refine ⟨.worker, (by rintro ⟨⟩), ?_⟩
    obtain ⟨hlt, hcaller⟩ := (rank_workerStep h.stopped).resolve_left hstuck
    exact rank_lt_of_worker hlt hcaller

/-- **A stopped queue runs down.** -/
theorem stopped_runsDown (task : ι → CallerTask P) :
    RunsDown (step task) (StoppedInv : Waiting P ι → Prop) (fun s => s.worker = .returned none)
      (· ≠ .spurious) rank where
  keeps s t h := ⟨stopped_step task s t h.stopped, WakeInv.step task s t h.wake, h.held.step task s t⟩
  lowers s t h := by
    cases t with
    | worker =>
        rcases rank_workerStep h.stopped with hsame | ⟨hlt, hcaller⟩
        · exact Or.inl hsame
        · exact Or.inr (rank_lt_of_worker hlt hcaller)
    | spurious =>
        obtain ⟨hsame | hlt, hcaller⟩ := rank_notify s
        · exact Or.inl hsame
        · exact Or.inr (rank_lt_of_worker hlt hcaller)
    | caller i => exact rank_callerStep task s i
  live _ h hdone := h.live task hdone

omit [Fintype ι] in
/-- A call that is to stop the queue has not started, or the flag is set. -/
theorem stop_step (task : ι → CallerTask P) {i : ι} (hi : task i = .stop) (s : Waiting P ι)
    (t : WaitingTurn ι) (h : s.caller i = .idle ∨ s.queue.stopped = true) :
    ((s.step task t).caller i = .idle ∨ (s.step task t).queue.stopped = true) ∧
      (t = .caller i → (s.step task t).queue.stopped = true) := by
  have hset : s.queue.stopped = true → (s.step task t).queue.stopped = true := stopped_step task s t
  have hown : t = .caller i → (s.step task t).queue.stopped = true := by
    rintro rfl
    rcases h with hidle | hstopped
    · show (s.callerStep task i).queue.stopped = true
      simp only [callerStep, hidle, hi]
      rfl
    · exact hset hstopped
  refine ⟨?_, hown⟩
  by_cases ht : t = .caller i
  · exact Or.inr (hown ht)
  · refine h.imp (fun hidle => ?_) hset
    cases t with
    | worker =>
        have hcaller : s.workerStep.caller = s.caller := by
          unfold workerStep
          split <;> (first | rfl | split <;> rfl)
        show s.workerStep.caller i = .idle
        rw [hcaller]
        exact hidle
    | spurious =>
        show s.notify.caller i = .idle
        rw [(rank_notify s).2]
        exact hidle
    | caller j =>
        have hij : i ≠ j := fun heq => ht (heq ▸ rfl)
        show (s.callerStep task j).caller i = .idle
        unfold callerStep
        split
        · split
          · exact (advance_caller_ne _ _ hij).trans hidle
          · exact (advance_caller_ne _ _ hij).trans hidle
        · split
          · exact (advance_caller_ne _ _ hij).trans hidle
          · exact hidle
        · exact (advance_caller_ne _ _ hij).trans hidle
        · split
          · exact (advance_caller_ne _ _ hij).trans hidle
          · exact hidle
        · refine (advance_caller_ne _ _ hij).trans ?_
          rw [(rank_notify s).2]
          exact hidle
        · exact (advance_caller_ne _ _ hij).trans hidle
        · exact hidle

/-- **Stopping ends the worker.** Where one of the calls is `stop_all_queues`, every schedule that
keeps giving turns to the worker and to each call leads to the worker's end, whatever the other calls
enqueue and without relying on spurious wake-ups; and from the moment the flag is set the worker is
handed one event at most. -/
theorem stop_ends_worker (task : ι → CallerTask P) {i : ι} (hi : task i = .stop)
    (ring : RingBuffer (Event P)) (readPos : UInt64) (turns : Nat → WaitingTurn ι)
    (hfair : Fair (· ≠ .spurious) turns) :
    (∃ n, (stateAt (step task) (init ring readPos) turns n).worker = .returned none) ∧
    ∀ n, (stateAt (step task) (init ring readPos) turns n).queue.stopped = true →
      ∀ more, gained (step task) handed (stateAt (step task) (init ring readPos) turns n) more ≤ 1 := by
  refine ⟨?_, fun n hstopped more => handed_at_most_once task hstopped more⟩
  obtain ⟨m, -, hm⟩ := hfair (.caller i) (by rintro ⟨⟩) 0
  have hidle : (stateAt (step task) (init ring readPos) turns m).caller i = .idle ∨
      (stateAt (step task) (init ring readPos) turns m).queue.stopped = true :=
    stateAt_keeps (fun s t h => (stop_step task hi s t h).1) (Or.inl rfl) m
  have hstopped : (stateAt (step task) (init ring readPos) turns (m + 1)).queue.stopped = true := by
    rw [stateAt_succ]
    exact (stop_step task hi _ _ hidle).2 hm
  have hinv : StoppedInv (stateAt (step task) (init ring readPos) turns (m + 1)) :=
    ⟨hstopped, stateAt_keeps (WakeInv.step task) (wakeInv_init ring readPos) _,
      stateAt_keeps (fun s t h => h.step task s t) (heldInv_init ring readPos) _⟩
  obtain ⟨n, -, hdone⟩ := (stopped_runsDown task).reaches hfair (m + 1) hinv
  exact ⟨n, hdone⟩

/-- One call routes an event, another one stops the queue; `true` is the one that stops it. -/
def routeAndStop : Bool → CallerTask 76
  | true => .stop
  | false => .route { sequence := 2 }

/-- The worker and the two calls, in turns. -/
def alternating (n : Nat) : WaitingTurn Bool :=
  match n % 3 with
  | 0 => .worker
  | 1 => .caller false
  | _ => .caller true

theorem alternating_fair : Fair (· ≠ .spurious) alternating := by
  intro t ht n
  have hat : ∀ r < 3, (3 * n + r) % 3 = r := by omega
  cases t with
  | spurious => exact absurd rfl ht
  | worker =>
      refine ⟨3 * n + 0, by omega, ?_⟩
      rw [alternating, hat 0 (by decide)]
      rfl
  | caller i =>
      cases i with
      | false =>
          refine ⟨3 * n + 1, by omega, ?_⟩
          rw [alternating, hat 1 (by decide)]
          rfl
      | true =>
          refine ⟨3 * n + 2, by omega, ?_⟩
          rw [alternating, hat 2 (by decide)]
          rfl

/-- A ring with an event the worker has not taken. -/
def unreadRing : RingBuffer (Event 76) := (RingBuffer.new .two).writeAll [{ sequence := 1 }]

theorem stop_ends_worker_alternating :
    (∃ n, (stateAt (step routeAndStop) (init unreadRing 0) alternating n).worker = .returned none) ∧
    ∀ n, (stateAt (step routeAndStop) (init unreadRing 0) alternating n).queue.stopped = true →
      ∀ more, gained (step routeAndStop) handed
        (stateAt (step routeAndStop) (init unreadRing 0) alternating n) more ≤ 1 :=
  stop_ends_worker (i := true) routeAndStop rfl unreadRing 0 alternating alternating_fair

end Calls

end Waiting

end Mawmaw.Core
