import Mawmaw.Lib.Schedule
import Mawmaw.Core.Producers

/-!
# The worker of a queue and those who wake it

One script queue step by step: its worker in `wait_for_trigger`, and any number of calls, each of
them a `route` that enqueues an event or a `stop_all_queues`. A step is one atomic load or store, or
one operation on the mutex or the condition variable.

* `WorkerPhase`, `CallerPhase` : how far the worker and each call are;
* `Waiting.step` : one step of the worker or of a call, or a spurious wake-up;
* `WakeInv`, `no_lost_wakeup` : a worker blocked although there is something to do will be notified;
* `KeepsHead`, `AliveInv` : when the head stays above a read position the worker has seen below it;
* `nullopt_only_if_stopped` : when `wait_for_trigger` gives up.
-/

namespace Mawmaw.Core
open Mawmaw.Lib

variable {P : Nat} {ι : Type}

/-- A call on the queue: `route` with an event for it, or `stop_all_queues`. -/
inductive CallerTask (P : Nat)
  | route (ev : Event P)
  | stop

/-- `acted`: the event is written, or `stopped` is set; the notification is still to come. -/
inductive CallerPhase
  | idle
  | loaded (seq : UInt64)
  | stored (seq : UInt64)
  | acted
  | locked
  | notified
  | done
  deriving DecidableEq, Repr

/-- `test*`: the predicate of `cv.wait`, with what it has loaded; `blocked`: inside `cv.wait`, the
mutex released; `relocking`: woken. -/
inductive WorkerPhase (P : Nat)
  | outside
  | locking
  | testHead
  | testPos (head : UInt64)
  | testStopped (head pos : UInt64)
  | blocked
  | relocking
  | checkStopped
  | loadPos
  | loadHead (pos : UInt64)
  | readHead (pos : UInt64)
  | storePos (pos : UInt64)
  | copyEvent (pos : UInt64)
  | unlocking (result : Option (Event P))
  | returned (result : Option (Event P))
  deriving DecidableEq

namespace WorkerPhase

/-- The worker has the mutex. -/
def holds : WorkerPhase P → Bool
  | .outside | .locking | .blocked | .relocking | .returned _ => false
  | _ => true

end WorkerPhase

inductive Holder (ι : Type)
  | worker
  | caller (i : ι)
  deriving DecidableEq

inductive WaitingTurn (ι : Type)
  | worker
  | spurious
  | caller (i : ι)
  deriving DecidableEq

/-- The queue, its worker and the calls on it. -/
structure Waiting (P : Nat) (ι : Type) where
  queue : ScriptQueue P
  readPos : UInt64
  mtx : Option (Holder ι) := none
  worker : WorkerPhase P := .outside
  caller : ι → CallerPhase := fun _ => .idle

namespace Waiting

def init (ring : RingBuffer (Event P)) (readPos : UInt64) : Waiting P ι :=
  { queue := { ring }, readPos }

/-- The worker's next step. A call that returned an event is followed by another one; the worker's
loop breaks on a call that returned none. -/
def workerStep (s : Waiting P ι) : Waiting P ι :=
  match s.worker with
  | .outside | .returned (some _) => { s with worker := .locking }
  | .locking | .relocking =>
    if s.mtx = none then { s with mtx := some .worker, worker := .testHead } else s
  | .testHead => { s with worker := .testPos s.queue.ring.head }
  | .testPos head => { s with worker := .testStopped head s.readPos }
  | .testStopped head pos =>
    if s.queue.stopped ∨ head > pos then { s with worker := .checkStopped }
    else { s with mtx := none, worker := .blocked }
  | .blocked => s
  | .checkStopped =>
    if s.queue.stopped then { s with worker := .unlocking none } else { s with worker := .loadPos }
  | .loadPos => { s with worker := .loadHead s.readPos }
  | .loadHead pos =>
    if s.queue.ring.head ≤ pos then { s with worker := .unlocking none }
    else { s with worker := .readHead pos }
  | .readHead pos =>
    if pos ≥ s.queue.ring.head then { s with worker := .unlocking none }
    else { s with worker := .storePos pos }
  | .storePos pos => { s with readPos := pos + 1, worker := .copyEvent pos }
  | .copyEvent pos => { s with worker := .unlocking (some (s.queue.ring.slot pos)) }
  | .unlocking result => { s with mtx := none, worker := .returned result }
  | .returned none => s

/-- Wakes the worker if it is in `cv.wait`: the one waiter, for `notify_one` and `notify_all`. -/
def notify (s : Waiting P ι) : Waiting P ι :=
  if s.worker = .blocked then { s with worker := .relocking } else s

section Calls
variable [DecidableEq ι]

def advance (s : Waiting P ι) (i : ι) (x : CallerPhase) : Waiting P ι :=
  { s with caller := Function.update s.caller i x }

@[simp] theorem advance_caller_self (s : Waiting P ι) (i : ι) (x : CallerPhase) :
    (s.advance i x).caller i = x := Function.update_self ..

theorem advance_caller_ne (s : Waiting P ι) {i j : ι} (x : CallerPhase) (h : j ≠ i) :
    (s.advance i x).caller j = s.caller j := Function.update_of_ne h ..

def storeSlot (s : Waiting P ι) (seq : UInt64) (ev : Event P) : Waiting P ι :=
  { s with queue := { s.queue with ring := s.queue.ring.storeSlot seq ev } }

def storeSeq (s : Waiting P ι) (seq : UInt64) : Waiting P ι :=
  { s with queue := { s.queue with ring := s.queue.ring.storeSeq seq } }

/-- The next step of call `i`. -/
def callerStep (task : ι → CallerTask P) (s : Waiting P ι) (i : ι) : Waiting P ι :=
  match s.caller i with
  | .idle =>
    match task i with
    | .route _ => s.advance i (.loaded s.queue.ring.writeSeq)
    | .stop => { s with queue := { s.queue with stopped := true } }.advance i .acted
  | .loaded seq =>
    match task i with
    | .route ev => (s.storeSlot seq ev).advance i (.stored seq)
    | .stop => s
  | .stored seq => (s.storeSeq (seq + 1)).advance i .acted
  | .acted =>
    if s.mtx = none then { s with mtx := some (.caller i) }.advance i .locked else s
  | .locked => s.notify.advance i .notified
  | .notified => { s with mtx := none }.advance i .done
  | .done => s

def step (task : ι → CallerTask P) (s : Waiting P ι) : WaitingTurn ι → Waiting P ι
  | .worker => s.workerStep
  | .spurious => s.notify
  | .caller i => s.callerStep task i

def run (task : ι → CallerTask P) (s : Waiting P ι) (turns : List (WaitingTurn ι)) :
    Waiting P ι := turns.foldl (step task) s

/-- The three steps of one `route`, with no other step in between, are one `write`. -/
theorem run_route (task : ι → CallerTask P) (s : Waiting P ι) (i : ι) (ev : Event P)
    (htask : task i = .route ev) (h : s.caller i = .idle) :
    (s.run task [.caller i, .caller i, .caller i]).queue = s.queue.enqueue ev ∧
      (s.run task [.caller i, .caller i, .caller i]).caller i = .acted := by
  simp [run, step, callerStep, h, htask, advance, storeSlot, storeSeq, ScriptQueue.enqueue,
    RingBuffer.write_eq_stores]

end Calls

/-! ## No lost wake-up -/

/-- Some call has written or set `stopped`, and not yet notified. -/
def Pending (s : Waiting P ι) : Prop := ∃ i, s.caller i = .acted ∨ s.caller i = .locked

/-- What the worker may rely on while it decides whether to block: a head that has changed since it
was loaded is announced by a pending notification. -/
def Announced (s : Waiting P ι) : Prop :=
  match s.worker with
  | .testPos head => s.queue.ring.head ≠ head → s.Pending
  | .testStopped head pos => pos = s.readPos ∧ (s.queue.ring.head ≠ head → s.Pending)
  | .blocked => (s.queue.ring.head > s.readPos ∨ s.queue.stopped = true) → s.Pending
  | _ => True

structure WakeInv (s : Waiting P ι) : Prop where
  workerHolds : s.worker.holds = true → s.mtx = some .worker
  callerHolds : ∀ i, s.caller i = .locked ∨ s.caller i = .notified → s.mtx = some (.caller i)
  announced : s.Announced

theorem wakeInv_init (ring : RingBuffer (Event P)) (readPos : UInt64) :
    WakeInv (init ring readPos : Waiting P ι) where
  workerHolds h := by cases h
  callerHolds i h := by rcases h with h | h <;> cases h
  announced := trivial

/-- A step that leaves the worker alone keeps what it relies on, if a notification is pending after
it or nothing the worker looks at has changed. -/
theorem Announced.keeps {s s' : Waiting P ι} (h : s.Announced) (hworker : s'.worker = s.worker)
    (hpos : s'.readPos = s.readPos)
    (hchange : s'.Pending ∨ (s'.queue.ring.head = s.queue.ring.head ∧
      s'.queue.stopped = s.queue.stopped ∧ (s.Pending → s'.Pending))) : s'.Announced := by
  unfold Announced at h ⊢
  rw [hworker]
  rcases hchange with hpending | ⟨hhead, hstopped, hpending⟩
  · split
    · exact fun _ => hpending
    · rename_i hw
      rw [hw] at h
      exact ⟨h.1.trans hpos.symm, fun _ => hpending⟩
    · exact fun _ => hpending
    · trivial
  · rw [hhead, hstopped, hpos]
    split
    · rename_i hw
      rw [hw] at h
      exact fun hne => hpending (h hne)
    · rename_i hw
      rw [hw] at h
      exact ⟨h.1, fun hne => hpending (h.2 hne)⟩
    · rename_i hw
      rw [hw] at h
      exact fun hsome => hpending (h hsome)
    · trivial

/-- No call has the mutex while the worker has it or nobody does. -/
theorem WakeInv.no_caller {s : Waiting P ι} (h : WakeInv s)
    (hmtx : s.mtx = some .worker ∨ s.mtx = none) (m : Option (Holder ι)) (i : ι)
    (hi : s.caller i = .locked ∨ s.caller i = .notified) : m = some (.caller i) := by
  exfalso
  have := h.callerHolds i hi
  rcases hmtx with hmtx | hmtx <;> rw [hmtx] at this <;> cases this

theorem WakeInv.worker_free {s : Waiting P ι} (h : WakeInv s) {i : ι}
    (hmtx : s.mtx = some (.caller i)) : s.worker.holds ≠ true := by
  intro hholds
  have := h.workerHolds hholds
  rw [hmtx] at this
  cases this

theorem announced_of_free {s : Waiting P ι} (hfree : s.worker.holds ≠ true)
    (hnot : s.worker ≠ .blocked) : s.Announced := by
  unfold Announced
  split
  · rename_i hw
    exact absurd (by rw [hw]; rfl) hfree
  · rename_i hw
    exact absurd (by rw [hw]; rfl) hfree
  · rename_i hw
    exact absurd hw hnot
  · trivial

theorem WakeInv.workerStep {s : Waiting P ι} (h : WakeInv s) : WakeInv s.workerStep := by
  have hann := h.announced
  have hheld := h.workerHolds
  unfold Announced at hann
  cases hw : s.worker with
  | outside =>
      simp only [Waiting.workerStep, hw]
      exact ⟨(fun hh => by cases hh), h.callerHolds, trivial⟩
  | returned result =>
      cases result with
      | none =>
          simp only [Waiting.workerStep, hw]
          exact h
      | some ev =>
          simp only [Waiting.workerStep, hw]
          exact ⟨(fun hh => by cases hh), h.callerHolds, trivial⟩
  | locking =>
      simp only [Waiting.workerStep, hw]
      split
      · rename_i hmtx
        exact ⟨fun _ => rfl, h.no_caller (Or.inr hmtx) _, trivial⟩
      · exact h
  | relocking =>
      simp only [Waiting.workerStep, hw]
      split
      · rename_i hmtx
        exact ⟨fun _ => rfl, h.no_caller (Or.inr hmtx) _, trivial⟩
      · exact h
  | testHead =>
      rw [hw] at hheld
      simp only [Waiting.workerStep, hw]
      exact ⟨fun _ => hheld rfl, h.callerHolds, fun hne => absurd rfl hne⟩
  | testPos head =>
      rw [hw] at hann hheld
      simp only [Waiting.workerStep, hw]
      exact ⟨fun _ => hheld rfl, h.callerHolds, rfl, hann⟩
  | testStopped head pos =>
      rw [hw] at hann hheld
      simp only [Waiting.workerStep, hw]
      split
      · exact ⟨fun _ => hheld rfl, h.callerHolds, trivial⟩
      · rename_i hfalse
        refine ⟨(fun hh => by cases hh), h.no_caller (Or.inl (hheld rfl)) _, ?_⟩
        -- the worker blocks: a head above its position is not the one it has tested
        intro hsome
        obtain ⟨hstopped, hhead⟩ := not_or.mp hfalse
        rcases hsome with hgt | hset
        · refine hann.2 fun heq => hhead ?_
          rw [← heq, hann.1]
          exact hgt
        · exact absurd hset hstopped
  | blocked =>
      simp only [Waiting.workerStep, hw]
      exact h
  | checkStopped =>
      rw [hw] at hheld
      simp only [Waiting.workerStep, hw]
      split <;> exact ⟨fun _ => hheld rfl, h.callerHolds, trivial⟩
  | loadPos =>
      rw [hw] at hheld
      simp only [Waiting.workerStep, hw]
      exact ⟨fun _ => hheld rfl, h.callerHolds, trivial⟩
  | loadHead pos =>
      rw [hw] at hheld
      simp only [Waiting.workerStep, hw]
      split <;> exact ⟨fun _ => hheld rfl, h.callerHolds, trivial⟩
  | readHead pos =>
      rw [hw] at hheld
      simp only [Waiting.workerStep, hw]
      split <;> exact ⟨fun _ => hheld rfl, h.callerHolds, trivial⟩
  | storePos pos =>
      rw [hw] at hheld
      simp only [Waiting.workerStep, hw]
      exact ⟨fun _ => hheld rfl, h.callerHolds, trivial⟩
  | copyEvent pos =>
      rw [hw] at hheld
      simp only [Waiting.workerStep, hw]
      exact ⟨fun _ => hheld rfl, h.callerHolds, trivial⟩
  | unlocking result =>
      rw [hw] at hheld
      simp only [Waiting.workerStep, hw]
      exact ⟨(fun hh => by cases hh), h.no_caller (Or.inl (hheld rfl)) _, trivial⟩

section Calls
variable [DecidableEq ι]

theorem Pending.advance {s : Waiting P ι} (h : s.Pending) {i : ι} {x : CallerPhase}
    (hx : s.caller i = .acted ∨ s.caller i = .locked → x = .acted ∨ x = .locked) :
    (s.advance i x).Pending := by
  obtain ⟨j, hj⟩ := h
  refine ⟨j, ?_⟩
  by_cases hji : j = i
  · subst hji
    rw [advance_caller_self]
    exact hx hj
  · rw [advance_caller_ne _ _ hji]
    exact hj

/-- A call goes on without the mutex, and without touching it. -/
theorem WakeInv.advance {s : Waiting P ι} (h : WakeInv s) (s' : Waiting P ι) (i : ι)
    (x : CallerPhase) (hmtx : s'.mtx = s.mtx) (hworker : s'.worker = s.worker)
    (hcaller : s'.caller = s.caller) (hx : x ≠ .locked ∧ x ≠ .notified) (hann : (s'.advance i x).Announced) :
    WakeInv (s'.advance i x) := by
  refine ⟨fun hh => ?_, fun j hj => ?_, hann⟩
  · have hholds : s.worker.holds = true := by
      rw [← hworker]
      exact hh
    exact hmtx.trans (h.workerHolds hholds)
  · by_cases hji : j = i
    · subst hji
      rw [advance_caller_self] at hj
      rcases hj with hj | hj
      · exact absurd hj hx.1
      · exact absurd hj hx.2
    · rw [advance_caller_ne _ _ hji, hcaller] at hj
      exact hmtx.trans (h.callerHolds j hj)

theorem WakeInv.callerStep {s : Waiting P ι} (h : WakeInv s) (task : ι → CallerTask P) (i : ι) :
    WakeInv (s.callerStep task i) := by
  have hann := h.announced
  cases hpc : s.caller i with
  | idle =>
      simp only [Waiting.callerStep, hpc]
      split
      · refine h.advance s i _ rfl rfl rfl (by simp) (hann.keeps rfl rfl (Or.inr ⟨rfl, rfl, ?_⟩))
        exact fun hp => hp.advance fun hi => by simp [hpc] at hi
      · refine h.advance { s with queue := { s.queue with stopped := true } } i _ rfl rfl rfl
          (by simp) (hann.keeps rfl rfl (Or.inl ?_))
        exact ⟨i, Or.inl (advance_caller_self _ i _)⟩
  | loaded seq =>
      simp only [Waiting.callerStep, hpc]
      split
      · rename_i ev _
        refine h.advance (s.storeSlot seq ev) i _ rfl rfl rfl (by simp)
          (hann.keeps rfl rfl (Or.inr ⟨rfl, rfl, ?_⟩))
        exact fun hp => Pending.advance hp fun hi => by simp [hpc] at hi
      · exact h
  | stored seq =>
      simp only [Waiting.callerStep, hpc]
      refine h.advance (s.storeSeq (seq + 1)) i _ rfl rfl rfl (by simp)
        (hann.keeps rfl rfl (Or.inl ?_))
      exact ⟨i, Or.inl (advance_caller_self _ i _)⟩
  | acted =>
      simp only [Waiting.callerStep, hpc]
      split
      · rename_i hmtx
        -- the call takes the mutex, which nobody had
        refine ⟨fun hh => ?_, fun j hj => ?_, hann.keeps rfl rfl (Or.inl ?_)⟩
        · have := h.workerHolds hh
          rw [hmtx] at this
          cases this
        · by_cases hji : j = i
          · rw [hji]
            rfl
          · rw [advance_caller_ne _ _ hji] at hj
            exact h.no_caller (Or.inr hmtx) _ j hj
        · exact ⟨i, Or.inr (advance_caller_self _ i _)⟩
      · exact h
  | locked =>
      simp only [Waiting.callerStep, hpc]
      -- the notification: this call has the mutex, so the worker is not testing
      have hmtx := h.callerHolds i (Or.inl hpc)
      have hfree := h.worker_free hmtx
      have hholders : ∀ s' : Waiting P ι, s'.mtx = s.mtx → s'.caller = s.caller →
          ∀ j, (s'.advance i .notified).caller j = .locked ∨
            (s'.advance i .notified).caller j = .notified → s'.mtx = some (.caller j) := by
        intro s' hm hc j hj
        rw [hm]
        by_cases hji : j = i
        · rw [hji]
          exact hmtx
        · rw [advance_caller_ne _ _ hji, hc] at hj
          exact h.callerHolds j hj
      unfold notify
      split
      · exact ⟨(fun hh => by cases hh), hholders _ rfl rfl, trivial⟩
      · rename_i hnot
        exact ⟨fun hh => absurd hh hfree, hholders s rfl rfl, announced_of_free hfree hnot⟩
  | notified =>
      simp only [Waiting.callerStep, hpc]
      have hmtx := h.callerHolds i (Or.inr hpc)
      refine ⟨fun hh => absurd hh (h.worker_free hmtx), fun j hj => ?_,
        hann.keeps rfl rfl (Or.inr ⟨rfl, rfl, ?_⟩)⟩
      · by_cases hji : j = i
        · subst hji
          rw [advance_caller_self] at hj
          simp at hj
        · rw [advance_caller_ne _ _ hji] at hj
          have := h.callerHolds j hj
          rw [hmtx, Option.some.injEq, Holder.caller.injEq] at this
          exact absurd this.symm hji
      · exact fun hp => Pending.advance hp fun hi => by simp [hpc] at hi
  | done =>
      simp only [Waiting.callerStep, hpc]
      exact h

theorem WakeInv.step (task : ι → CallerTask P) (s : Waiting P ι) (t : WaitingTurn ι)
    (h : WakeInv s) : WakeInv (s.step task t) := by
  cases t with
  | worker => exact h.workerStep
  | caller i => exact h.callerStep task i
  | spurious =>
      show WakeInv s.notify
      unfold notify
      split
      · exact ⟨(fun hh => by cases hh), h.callerHolds, trivial⟩
      · exact h

/-- **No lost wake-up.** In every reachable state, a worker blocked although there is an event past
its read position, or the queue is stopped, has a notification coming. -/
theorem no_lost_wakeup (task : ι → CallerTask P) (ring : RingBuffer (Event P)) (readPos : UInt64)
    (turns : List (WaitingTurn ι)) (hblocked : ((init ring readPos).run task turns).worker = .blocked)
    (hwork : ((init ring readPos).run task turns).queue.ring.head
        > ((init ring readPos).run task turns).readPos ∨
      ((init ring readPos).run task turns).queue.stopped = true) :
    ((init ring readPos).run task turns).Pending := by
  have h : WakeInv ((init ring readPos).run task turns) :=
    foldl_keeps (WakeInv.step task) turns _ (wakeInv_init ring readPos)
  have hann := h.announced
  unfold Announced at hann
  rw [hblocked] at hann
  exact hann hwork

/-- One call, which writes while the worker is between its test and its blocking. -/
theorem no_lost_wakeup_between :
    ((init (RingBuffer.new (.ofLog 1)) 0).run
      (fun _ : Fin 1 => CallerTask.route ({} : Event 76))
      [.worker, .worker, .worker, .caller 0, .caller 0, .caller 0, .worker, .worker]).Pending :=
  no_lost_wakeup (fun _ : Fin 1 => CallerTask.route ({} : Event 76))
    (RingBuffer.new (.ofLog 1)) 0
    [.worker, .worker, .worker, .caller 0, .caller 0, .caller 0, .worker, .worker]
    (by decide +kernel) (by decide +kernel)

end Calls

/-! ## A worker that gives up -/

/-- The worker has found the head above its read position, and has not read the event yet. -/
def Committed (s : Waiting P ι) : Prop :=
  match s.worker with
  | .testPos head | .testStopped head _ => s.readPos < head
  | .checkStopped | .loadPos | .loadHead _ | .readHead _ => True
  | _ => False

/-- While the queue runs, no store to `write_seq_` brings the head down to the read position of a
worker that has found it higher. -/
def KeepsHead (s : Waiting P ι) : WaitingTurn ι → Prop
  | .caller i => ∀ seq, s.caller i = .stored seq → s.queue.stopped = false → s.Committed →
      s.readPos < seq + 1
  | _ => True

/-- The position the worker has loaded is still its read position. -/
def PosLoaded (s : Waiting P ι) : Prop :=
  match s.worker with
  | .testStopped _ pos | .loadHead pos | .readHead pos | .storePos pos => pos = s.readPos
  | _ => True

theorem posLoaded_workerStep {s : Waiting P ι} (h : s.PosLoaded) : s.workerStep.PosLoaded := by
  unfold PosLoaded at h
  cases hw : s.worker with
  | returned result => cases result <;> simp only [workerStep, hw, PosLoaded]
  | loadHead pos | readHead pos =>
      rw [hw] at h
      simp only [workerStep, hw]
      split
      · trivial
      · exact h
  | locking | relocking | checkStopped | testStopped head pos =>
      simp only [workerStep, hw]
      split <;> simp_all [PosLoaded]
  | outside | testHead | testPos head | blocked | loadPos | storePos pos | copyEvent pos
  | unlocking result => simp only [workerStep, hw, PosLoaded]

/-- A committed worker has its event, and a worker that gave up was stopped. -/
structure AliveInv (s : Waiting P ι) : Prop where
  pos : s.PosLoaded
  above : s.queue.stopped = false → s.Committed → s.readPos < s.queue.ring.head
  stopped : s.worker = .unlocking none ∨ s.worker = .returned none → s.queue.stopped = true

theorem aliveInv_init (ring : RingBuffer (Event P)) (readPos : UInt64) :
    AliveInv (init ring readPos : Waiting P ι) where
  pos := trivial
  above _ h := h.elim
  stopped h := by rcases h with h | h <;> cases h

/-- The worker commits itself only on a head above its position. -/
theorem AliveInv.above_workerStep {s : Waiting P ι} (h : AliveInv s)
    (hstop : s.workerStep.queue.stopped = false) (hc : s.workerStep.Committed) :
    s.workerStep.readPos < s.workerStep.queue.ring.head := by
  have hpos := h.pos
  unfold PosLoaded at hpos
  unfold Committed at hc
  cases hw : s.worker with
  | outside | blocked | storePos pos | copyEvent pos | unlocking result =>
      simp [workerStep, hw] at hc
  | returned result => cases result <;> simp [workerStep, hw] at hc
  | locking | relocking =>
      simp only [workerStep, hw] at hc
      by_cases hmtx : s.mtx = none <;> simp [hmtx, hw] at hc
  | testHead =>
      simp only [workerStep, hw] at hc ⊢
      exact hc
  | testPos head =>
      simp only [workerStep, hw] at hstop hc ⊢
      exact h.above hstop (by unfold Committed; rw [hw]; exact hc)
  | testStopped head pos =>
      rw [hw] at hpos
      simp only [workerStep, hw] at hstop hc ⊢
      by_cases htest : s.queue.stopped = true ∨ head > pos
      · rw [if_pos htest] at hstop ⊢
        have hrun : s.queue.stopped = false := hstop
        have hhead : head > pos := htest.resolve_left (by simp [hrun])
        refine h.above hstop ?_
        unfold Committed
        rw [hw]
        show s.readPos < head
        rw [← hpos]
        exact hhead
      · simp [htest] at hc
  | checkStopped =>
      simp only [workerStep, hw] at hstop hc ⊢
      by_cases hrun : s.queue.stopped = true
      · simp [hrun] at hc
      · rw [if_neg hrun] at hstop ⊢
        exact h.above hstop (by unfold Committed; rw [hw]; trivial)
  | loadPos =>
      simp only [workerStep, hw] at hstop ⊢
      exact h.above hstop (by unfold Committed; rw [hw]; trivial)
  | loadHead pos =>
      simp only [workerStep, hw] at hstop hc ⊢
      by_cases hle : s.queue.ring.head ≤ pos
      · simp [hle] at hc
      · rw [if_neg hle] at hstop ⊢
        exact h.above hstop (by unfold Committed; rw [hw]; trivial)
  | readHead pos =>
      simp only [workerStep, hw] at hc
      by_cases hge : pos ≥ s.queue.ring.head <;> simp [hge] at hc

/-- A call ends without an event only when the queue is stopped. -/
theorem AliveInv.stopped_workerStep {s : Waiting P ι} (h : AliveInv s)
    (hend : s.workerStep.worker = .unlocking none ∨ s.workerStep.worker = .returned none) :
    s.workerStep.queue.stopped = true := by
  have hpos := h.pos
  unfold PosLoaded at hpos
  -- a committed worker that finds the head at its position was stopped
  have hlow : s.Committed → s.queue.ring.head ≤ s.readPos → s.queue.stopped = true := by
    intro hc hle
    cases hstop : s.queue.stopped with
    | true => rfl
    | false => exact absurd (h.above hstop hc) (UInt64.not_lt.mpr hle)
  cases hw : s.worker with
  | outside | testHead | testPos head | loadPos | storePos pos | copyEvent pos =>
      simp [workerStep, hw] at hend
  | blocked => simp [workerStep, hw] at hend
  | locking | relocking =>
      simp only [workerStep, hw] at hend
      by_cases hmtx : s.mtx = none <;> simp [hmtx, hw] at hend
  | testStopped head pos =>
      simp only [workerStep, hw] at hend
      split at hend <;> simp at hend
  | checkStopped =>
      simp only [workerStep, hw] at hend ⊢
      split at hend
      · rename_i hstop
        rw [if_pos hstop]
        exact hstop
      · simp at hend
  | loadHead pos =>
      rw [hw] at hpos
      simp only [workerStep, hw] at hend ⊢
      split at hend
      · rename_i hle
        rw [if_pos hle]
        exact hlow (by unfold Committed; rw [hw]; trivial) (hpos ▸ hle)
      · simp at hend
  | readHead pos =>
      rw [hw] at hpos
      simp only [workerStep, hw] at hend ⊢
      split at hend
      · rename_i hge
        rw [if_pos hge]
        exact hlow (by unfold Committed; rw [hw]; trivial) (hpos ▸ hge)
      · simp at hend
  | unlocking result =>
      simp only [workerStep, hw] at hend ⊢
      refine h.stopped (Or.inl ?_)
      simpa [hw] using hend
  | returned result =>
      cases result with
      | none =>
          simp only [workerStep, hw]
          exact h.stopped (Or.inr hw)
      | some ev => simp [workerStep, hw] at hend

theorem AliveInv.workerStep {s : Waiting P ι} (h : AliveInv s) : AliveInv s.workerStep :=
  ⟨posLoaded_workerStep h.pos, h.above_workerStep, h.stopped_workerStep⟩

/-- A step of a call that leaves the worker alone. -/
theorem AliveInv.keeps {s s' : Waiting P ι} (h : AliveInv s) (hworker : s'.worker = s.worker)
    (hpos : s'.readPos = s.readPos) (hstopped : s.queue.stopped = true → s'.queue.stopped = true)
    (habove : s.queue.stopped = false → s.Committed → s.readPos < s.queue.ring.head →
      s.readPos < s'.queue.ring.head) : AliveInv s' := by
  have hcommitted : s'.Committed → s.Committed := by
    intro hc
    unfold Committed at hc ⊢
    rwa [hworker, hpos] at hc
  refine ⟨?_, fun hstop hc => ?_, fun hend => ?_⟩
  · have := h.pos
    unfold PosLoaded at this ⊢
    rwa [hworker, hpos]
  · have hrun : s.queue.stopped = false := by
      cases hs : s.queue.stopped with
      | false => rfl
      | true => exact absurd (hstopped hs) (by simp [hstop])
    rw [hpos]
    exact habove hrun (hcommitted hc) (h.above hrun (hcommitted hc))
  · rw [hworker] at hend
    exact hstopped (h.stopped hend)

theorem AliveInv.notify {s : Waiting P ι} (h : AliveInv s) : AliveInv s.notify := by
  unfold Waiting.notify
  split
  · exact ⟨trivial, fun _ hc => hc.elim, fun hend => by rcases hend with hend | hend <;> cases hend⟩
  · exact h

section Calls
variable [DecidableEq ι]

theorem AliveInv.callerStep {s : Waiting P ι} (h : AliveInv s) (task : ι → CallerTask P) {i : ι}
    (hkeep : s.KeepsHead (.caller i)) : AliveInv (s.callerStep task i) := by
  cases hpc : s.caller i with
  | idle =>
      simp only [Waiting.callerStep, hpc]
      split
      · exact h.keeps rfl rfl (fun hs => hs) fun _ _ hlt => hlt
      · exact h.keeps rfl rfl (fun _ => rfl) fun _ _ hlt => hlt
  | loaded seq =>
      simp only [Waiting.callerStep, hpc]
      split
      · exact h.keeps rfl rfl (fun hs => hs) fun _ _ hlt => hlt
      · exact h
  | stored seq =>
      simp only [Waiting.callerStep, hpc]
      exact h.keeps rfl rfl (fun hs => hs) fun hstop hc _ => hkeep seq hpc hstop hc
  | acted =>
      simp only [Waiting.callerStep, hpc]
      split
      · exact h.keeps rfl rfl (fun hs => hs) fun _ _ hlt => hlt
      · exact h
  | locked =>
      simp only [Waiting.callerStep, hpc]
      exact h.notify.keeps rfl rfl (fun hs => hs) fun _ _ hlt => hlt
  | notified =>
      simp only [Waiting.callerStep, hpc]
      exact h.keeps rfl rfl (fun hs => hs) fun _ _ hlt => hlt
  | done =>
      simp only [Waiting.callerStep, hpc]
      exact h

theorem AliveInv.step (task : ι → CallerTask P) (s : Waiting P ι) (t : WaitingTurn ι)
    (h : AliveInv s) (hkeep : s.KeepsHead t) : AliveInv (s.step task t) := by
  cases t with
  | worker => exact h.workerStep
  | spurious => exact h.notify
  | caller i => exact h.callerStep task hkeep

theorem posLoaded_step (task : ι → CallerTask P) (s : Waiting P ι) (t : WaitingTurn ι)
    (h : s.PosLoaded) : (s.step task t).PosLoaded := by
  have hkeeps : ∀ s' : Waiting P ι, s'.worker = s.worker → s'.readPos = s.readPos →
      s'.PosLoaded := by
    intro s' hworker hpos
    unfold PosLoaded at h ⊢
    rwa [hworker, hpos]
  have hnotify : s.notify.PosLoaded := by
    unfold notify
    split
    · trivial
    · exact h
  cases t with
  | worker => exact posLoaded_workerStep h
  | spurious => exact hnotify
  | caller i =>
      show (s.callerStep task i).PosLoaded
      unfold callerStep
      split
      · split <;> exact hkeeps _ rfl rfl
      · split
        · exact hkeeps _ rfl rfl
        · exact h
      · exact hkeeps _ rfl rfl
      · split
        · exact hkeeps _ rfl rfl
        · exact h
      · exact hnotify
      · exact hkeeps _ rfl rfl
      · exact h

/-- A committed worker that finds the head at its position returns without an event. -/
theorem gives_up (task : ι → CallerTask P) {s : Waiting P ι} (hpos : s.PosLoaded)
    (hc : s.Committed) (hrun : s.queue.stopped = false) (hlow : s.queue.ring.head ≤ s.readPos) :
    (s.run task (List.replicate 6 .worker)).worker = .returned none ∧
      (s.run task (List.replicate 6 .worker)).queue.stopped = false := by
  unfold Committed at hc
  unfold PosLoaded at hpos
  cases hw : s.worker with
  | testPos head =>
      rw [hw] at hc
      simp [run, step, workerStep, hw, hrun, hlow, hc]
  | testStopped head pos =>
      rw [hw] at hc hpos
      simp [run, step, workerStep, hw, hrun, hlow, hpos, hc]
  | checkStopped | loadPos => simp [run, step, workerStep, hw, hrun, hlow]
  | loadHead pos | readHead pos =>
      rw [hw] at hpos
      simp [run, step, workerStep, hw, hrun, hlow, hpos]
  | outside | locking | testHead | blocked | relocking | storePos pos | copyEvent pos
  | unlocking result | returned result =>
      rw [hw] at hc
      exact hc.elim

/-- **The worker's end.** In a run whose stores keep the head above a committed worker, a call
returns without an event only when the queue is stopped; after a store that does not, the worker
left to itself returns without an event from a queue that runs. -/
theorem nullopt_only_if_stopped (task : ι → CallerTask P) (ring : RingBuffer (Event P))
    (readPos : UInt64) (turns : List (WaitingTurn ι)) :
    (Along (step task) KeepsHead (init ring readPos) turns →
      ((init ring readPos).run task turns).worker = .returned none →
        ((init ring readPos).run task turns).queue.stopped = true) ∧
    ∀ t, ¬ ((init ring readPos).run task turns).KeepsHead t →
      ((((init ring readPos).run task turns).step task t).run task
        (List.replicate 6 .worker)).worker = .returned none ∧
      ((((init ring readPos).run task turns).step task t).run task
        (List.replicate 6 .worker)).queue.stopped = false := by
  refine ⟨fun hkeep hend => ?_, fun t hnot => ?_⟩
  · have h : AliveInv ((init ring readPos).run task turns) :=
      Along.keeps (AliveInv.step task) (aliveInv_init ring readPos) hkeep
    exact h.stopped (Or.inr hend)
  · have hpos : ((init ring readPos).run task turns).PosLoaded :=
      foldl_keeps (posLoaded_step task) turns _ trivial
    generalize (init ring readPos).run task turns = s at hnot hpos
    cases t with
    | worker | spurious => exact absurd trivial hnot
    | caller i =>
        simp only [KeepsHead, not_forall] at hnot
        obtain ⟨seq, hpc, hrun, hc, hlow⟩ := hnot
        have hstep : s.step task (.caller i) = (s.storeSeq (seq + 1)).advance i .acted := by
          show s.callerStep task i = _
          simp only [callerStep, hpc]
        rw [hstep]
        refine gives_up task ?_ hc hrun (UInt64.not_lt.mp hlow)
        have := posLoaded_step task s (.caller i) hpos
        rwa [hstep] at this

/-- Three routes: the first loads the counter, the second is complete and its event returned, the
third makes the worker find the head above its position; then the first stores its counter. -/
def lateStore : List (WaitingTurn (Fin 3)) :=
  [.caller 0] ++ List.replicate 6 (.caller 1) ++ List.replicate 12 .worker
    ++ List.replicate 3 (.caller 2) ++ List.replicate 5 .worker ++ List.replicate 2 (.caller 0)
    ++ List.replicate 4 .worker

/-- The worker gives up although the queue runs. -/
theorem nullopt_running :
    ((init (RingBuffer.new (.ofLog 10)) 0).run
      (fun _ : Fin 3 => CallerTask.route ({} : Event 76)) lateStore).worker = .returned none ∧
    ((init (RingBuffer.new (.ofLog 10)) 0).run
      (fun _ : Fin 3 => CallerTask.route ({} : Event 76)) lateStore).queue.stopped = false := by
  decide +kernel

end Calls

end Waiting

end Mawmaw.Core
