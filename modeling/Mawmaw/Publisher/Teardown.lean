import Mawmaw.Lib.Schedule

/-!
# An endpoint destroyed while its clients are served

The threads of a `WebSocketEndpoint` or an `HttpEndpoint`, and the call of its destructor. The
accept thread starts a detached thread for each client; the destructor joins the accept thread, and
shuts the listed clients down with `clients_mu_` held.

* `ClientPoint`, `next`, `uses` : where a client's thread is, where it goes, and the member its
  step uses;
* `Turn`, `Teardown.step` : a step of the accept thread, of the destructor or of a client's thread;
* `Inv` : once the accept thread is joined no thread is started, and the destructor does not return
  with a thread between the lock and the unlock of `clients_mu_`;
* `late_use_iff` : no member is used late exactly if every thread has ended when the destructor
  returns.
-/

namespace Mawmaw.Pub
open Mawmaw.Lib

inductive ServerKind
  | webSocket
  | http
  deriving DecidableEq, Repr

inductive Member
  | id
  | running
  | clientsMu
  | clients
  | path
  | contentType
  | payloadMu
  | payload
  deriving DecidableEq, Repr

/-- The points of `handshake_and_serve` and of `handle_client`, which share those that list the
client and take it off again. -/
inductive ClientPoint
  | handshake
  | lockToPush
  | push
  | unlockPushed
  | announce
  | testRunning
  | frame
  | receive
  | testMethod
  | testPath
  | lockToCopy
  | copy
  | unlockCopied
  | contentType
  | respond
  | closeFailed
  | lockToRemove
  | remove
  | unlockRemoved
  | ended
  deriving DecidableEq, Repr

/-- How a step comes out: `good` is a handshake or a frame that succeeds, the end of a request, a
`GET`, the path of the endpoint; `more` is a part of a request. -/
inductive Outcome
  | good
  | bad
  | more
  deriving DecidableEq, Repr

/-- The member the step at a point uses. -/
def ClientPoint.uses : ClientPoint → Option Member
  | .handshake => none
  | .lockToPush => some .clientsMu
  | .push => some .clients
  | .unlockPushed => some .clientsMu
  | .announce => some .id
  | .testRunning => some .running
  | .frame => none
  | .receive => none
  | .testMethod => none
  | .testPath => some .path
  | .lockToCopy => some .payloadMu
  | .copy => some .payload
  | .unlockCopied => some .payloadMu
  | .contentType => some .contentType
  | .respond => none
  | .closeFailed => none
  | .lockToRemove => some .clientsMu
  | .remove => some .clients
  | .unlockRemoved => some .clientsMu
  | .ended => none

/-- The point after a step that is not blocked; `running` is the value of `running_`. -/
def ClientPoint.next (kind : ServerKind) (running : Bool) (o : Outcome) : ClientPoint → ClientPoint
  | .handshake => if o = .good then .lockToPush else .ended
  | .lockToPush => .push
  | .push => .unlockPushed
  | .unlockPushed =>
    match kind with
    | .webSocket => .announce
    | .http => .receive
  | .announce => .testRunning
  | .testRunning => if running then .frame else .lockToRemove
  | .frame => if o = .good then .testRunning else .lockToRemove
  | .receive =>
    match o with
    | .good => .testMethod
    | .bad => .closeFailed
    | .more => .receive
  | .testMethod => if o = .good then .testPath else .respond
  | .testPath => if o = .good then .lockToCopy else .respond
  | .lockToCopy => .copy
  | .copy => .unlockCopied
  | .unlockCopied => .contentType
  | .contentType => .respond
  | .respond => .lockToRemove
  | .closeFailed => .lockToRemove
  | .lockToRemove => .remove
  | .remove => .unlockRemoved
  | .unlockRemoved => .ended
  | .ended => .ended

/-- The first point of a client's thread. -/
def ServerKind.start : ServerKind → ClientPoint
  | .webSocket => .handshake
  | .http => .lockToPush

/-- `retest`: `accept` has failed. -/
inductive AcceptPoint
  | testRunning
  | accepting
  | retest
  | ended
  deriving DecidableEq, Repr

/-- `closing k`: the mutex is held, and `k` clients are shut down. -/
inductive DestructorPoint
  | notCalled
  | stopped
  | closedListener
  | joined
  | closing (k : Nat)
  | returned
  deriving DecidableEq, Repr

inductive MutexHolder
  | client (i : Nat)
  | destructor
  deriving DecidableEq, Repr

/-- `threads` are the client threads in the order they are started, `clients` those listed, and
`late` the members used once the destructor has returned, each with the thread. -/
structure Teardown where
  running : Bool := true
  listening : Bool := true
  acceptor : AcceptPoint := .testRunning
  destructor : DestructorPoint := .notCalled
  threads : List ClientPoint := []
  clientsMu : Option MutexHolder := none
  payloadMu : Option Nat := none
  clients : List Nat := []
  late : List (Nat × Member) := []

/-- `arrives`: a client connects, if the accept thread waits for one. -/
inductive Turn
  | acceptor (arrives : Bool)
  | destructor
  | client (i : Nat) (o : Outcome)

namespace Teardown

def acceptorStep (kind : ServerKind) (s : Teardown) (arrives : Bool) : Teardown :=
  match s.acceptor with
  | .testRunning => { s with acceptor := if s.running then .accepting else .ended }
  | .accepting =>
    if s.listening ∧ arrives then
      { s with threads := s.threads ++ [kind.start], acceptor := .testRunning }
    else { s with acceptor := .retest }
  | .retest => { s with acceptor := if s.running then .testRunning else .ended }
  | .ended => s

def destructorStep (s : Teardown) : Teardown :=
  match s.destructor with
  | .notCalled => { s with running := false, destructor := .stopped }
  | .stopped => { s with listening := false, destructor := .closedListener }
  | .closedListener => if s.acceptor = .ended then { s with destructor := .joined } else s
  | .joined =>
    if s.clientsMu = none then
      { s with clientsMu := some .destructor, destructor := .closing 0 }
    else s
  | .closing k =>
    if k < s.clients.length then { s with destructor := .closing (k + 1) }
    else { s with clientsMu := none, destructor := .returned }
  | .returned => s

/-- What the step of thread `i` at a point does to the members; none if it is blocked. -/
def act (s : Teardown) (i : Nat) : ClientPoint → Option Teardown
  | .lockToPush =>
    if s.clientsMu = none then some { s with clientsMu := some (.client i) } else none
  | .push => some { s with clients := s.clients ++ [i] }
  | .unlockPushed => some { s with clientsMu := none }
  | .lockToCopy => if s.payloadMu = none then some { s with payloadMu := some i } else none
  | .unlockCopied => some { s with payloadMu := none }
  | .lockToRemove =>
    if s.clientsMu = none then some { s with clientsMu := some (.client i) } else none
  | .remove => some { s with clients := s.clients.erase i }
  | .unlockRemoved => some { s with clientsMu := none }
  | .handshake => some s
  | .announce => some s
  | .testRunning => some s
  | .frame => some s
  | .receive => some s
  | .testMethod => some s
  | .testPath => some s
  | .copy => some s
  | .contentType => some s
  | .respond => some s
  | .closeFailed => some s
  | .ended => some s

/-- The step of thread `i`, at a point, uses a member, blocked or not. -/
def noteUse (s : Teardown) (i : Nat) (p : ClientPoint) : Teardown :=
  if s.destructor = .returned then { s with late := s.late ++ p.uses.toList.map fun m => (i, m) }
  else s

def clientStep (kind : ServerKind) (s : Teardown) (i : Nat) (o : Outcome) : Teardown :=
  match s.threads[i]? with
  | some p =>
    match (s.noteUse i p).act i p with
    | some s => { s with threads := s.threads.set i (p.next kind s.running o) }
    | none => s.noteUse i p
  | none => s

def step (kind : ServerKind) (s : Teardown) : Turn → Teardown
  | .acceptor arrives => s.acceptorStep kind arrives
  | .destructor => s.destructorStep
  | .client i o => s.clientStep kind i o

def run (kind : ServerKind) (s : Teardown) (turns : List Turn) : Teardown :=
  turns.foldl (step kind) s

/-- The next step of the destructor is its last. -/
def AboutToReturn (s : Teardown) : Prop := ∃ k, s.destructor = .closing k ∧ s.clients.length ≤ k

def AllEnded (s : Teardown) : Prop := ∀ p ∈ s.threads, p = .ended

/-- The destructor returns after every thread has ended. -/
def ReturnsLast (s : Teardown) (t : Turn) : Prop := t = .destructor → s.AboutToReturn → s.AllEnded

/-! ## The steps -/

/-- Between the lock and the unlock of `clients_mu_`. -/
def Inside (p : ClientPoint) : Prop :=
  p = .push ∨ p = .unlockPushed ∨ p = .remove ∨ p = .unlockRemoved

/-- The destructor has joined the accept thread. -/
def Joined (d : DestructorPoint) : Prop := d = .joined ∨ (∃ k, d = .closing k) ∨ d = .returned

section
variable {kind : ServerKind} {s s' : Teardown} {i : Nat} {p : ClientPoint} {o : Outcome}

@[simp] theorem noteUse_destructor : (s.noteUse i p).destructor = s.destructor := by
  unfold noteUse; split <;> rfl

@[simp] theorem noteUse_acceptor : (s.noteUse i p).acceptor = s.acceptor := by
  unfold noteUse; split <;> rfl

@[simp] theorem noteUse_threads : (s.noteUse i p).threads = s.threads := by
  unfold noteUse; split <;> rfl

@[simp] theorem noteUse_clientsMu : (s.noteUse i p).clientsMu = s.clientsMu := by
  unfold noteUse; split <;> rfl

@[simp] theorem noteUse_running : (s.noteUse i p).running = s.running := by
  unfold noteUse; split <;> rfl

theorem noteUse_late_of_returned (h : s.destructor = .returned) :
    (s.noteUse i p).late = s.late ++ p.uses.toList.map fun m => (i, m) := by
  rw [noteUse, if_pos h]

theorem noteUse_late_of_not_returned (h : s.destructor ≠ .returned) :
    (s.noteUse i p).late = s.late := by
  rw [noteUse, if_neg h]

/-- What a thread's step leaves as it is. -/
structure SameBut (s s' : Teardown) : Prop where
  destructor : s'.destructor = s.destructor
  acceptor : s'.acceptor = s.acceptor
  threads : s'.threads = s.threads
  running : s'.running = s.running
  late : s'.late = s.late

theorem act_same (h : s.act i p = some s') : SameBut s s' := by
  have hself : ∀ {t : Teardown}, some s = some t → SameBut s t := by
    intro t ht
    obtain rfl := Option.some.inj ht
    exact ⟨rfl, rfl, rfl, rfl, rfl⟩
  cases p with
  | lockToPush | lockToRemove | lockToCopy =>
      simp only [act] at h
      split at h
      · obtain rfl := Option.some.inj h
        exact ⟨rfl, rfl, rfl, rfl, rfl⟩
      · cases h
  | push | unlockPushed | unlockCopied | remove | unlockRemoved =>
      obtain rfl := Option.some.inj h
      exact ⟨rfl, rfl, rfl, rfl, rfl⟩
  | handshake | announce | testRunning | frame | receive | testMethod | testPath | copy
  | contentType | respond | closeFailed | ended => exact hself h

/-- A thread's step locks `clients_mu_`, unlocks it from inside, or leaves it and gets inside only
from inside. -/
theorem act_clientsMu (kind : ServerKind) (o : Outcome) (h : s.act i p = some s') :
    (s.clientsMu = none ∧ s'.clientsMu = some (.client i)) ∨
    (Inside p ∧ ∀ running, ¬ Inside (p.next kind running o)) ∨
    (s'.clientsMu = s.clientsMu ∧ ∀ running, Inside (p.next kind running o) → Inside p) := by
  cases p with
  | lockToPush | lockToRemove =>
      simp only [act] at h
      split at h
      · next hfree =>
          obtain rfl := Option.some.inj h
          exact Or.inl ⟨hfree, rfl⟩
      · cases h
  | lockToCopy =>
      simp only [act] at h
      split at h
      · obtain rfl := Option.some.inj h
        exact Or.inr (Or.inr ⟨rfl, fun _ hin => absurd hin (by simp [ClientPoint.next, Inside])⟩)
      · cases h
  | push | remove =>
      obtain rfl := Option.some.inj h
      exact Or.inr (Or.inr ⟨rfl, fun _ _ => by simp [Inside]⟩)
  | unlockPushed | unlockRemoved =>
      refine Or.inr (Or.inl ⟨by simp [Inside], fun running => ?_⟩)
      cases kind <;> simp [ClientPoint.next, Inside]
  | handshake | announce | testRunning | frame | receive | testMethod | testPath | copy
  | unlockCopied | contentType | respond | closeFailed | ended =>
      obtain rfl := Option.some.inj h
      refine Or.inr (Or.inr ⟨rfl, fun running hin => absurd hin ?_⟩)
      cases running <;> cases o <;> simp [ClientPoint.next, Inside]

/-- A point that uses no member is not blocked. -/
theorem act_of_uses_none (h : p.uses = none) : s.act i p = some s := by
  cases p <;> first | rfl | cases h

/-- A step of a thread: it has none to take, it is blocked, or it goes on. -/
theorem clientStep_cases (kind : ServerKind) (s : Teardown) (i : Nat) (o : Outcome) :
    (s.threads[i]? = none ∧ s.clientStep kind i o = s) ∨
    ∃ p, s.threads[i]? = some p ∧
      (((s.noteUse i p).act i p = none ∧ s.clientStep kind i o = s.noteUse i p) ∨
        ∃ s', (s.noteUse i p).act i p = some s' ∧ s.clientStep kind i o =
          { s' with threads := s.threads.set i (p.next kind s.running o) }) := by
  unfold clientStep
  cases hp : s.threads[i]? with
  | none => exact Or.inl ⟨rfl, rfl⟩
  | some p =>
      refine Or.inr ⟨p, rfl, ?_⟩
      dsimp only
      cases hact : (s.noteUse i p).act i p with
      | none => exact Or.inl ⟨rfl, rfl⟩
      | some s' =>
          have hsame := act_same hact
          refine Or.inr ⟨s', rfl, ?_⟩
          dsimp only
          rw [hsame.threads, hsame.running, noteUse_threads, noteUse_running]

/-- Where the accept thread and the destructor are does not change, nor does `running_`. -/
theorem clientStep_others (kind : ServerKind) (s : Teardown) (i : Nat) (o : Outcome) :
    (s.clientStep kind i o).destructor = s.destructor ∧
      (s.clientStep kind i o).acceptor = s.acceptor ∧
      (s.clientStep kind i o).running = s.running := by
  rcases clientStep_cases kind s i o with ⟨-, h⟩ | ⟨p, -, ⟨-, h⟩ | ⟨s', hact, h⟩⟩
  · rw [h]
    exact ⟨rfl, rfl, rfl⟩
  · rw [h]
    exact ⟨noteUse_destructor, noteUse_acceptor, noteUse_running⟩
  · have hsame := act_same hact
    rw [h]
    exact ⟨hsame.destructor.trans noteUse_destructor, hsame.acceptor.trans noteUse_acceptor,
      hsame.running.trans noteUse_running⟩

/-- What a step notes is the member its point uses. -/
theorem clientStep_late (hp : s.threads[i]? = some p) :
    (s.clientStep kind i o).late = (s.noteUse i p).late := by
  rcases clientStep_cases kind s i o with ⟨hnone, -⟩ | ⟨q, hq, hstep⟩
  · rw [hp] at hnone
    cases hnone
  · obtain rfl := Option.some.inj (hp.symm.trans hq)
    rcases hstep with ⟨-, h⟩ | ⟨s', hact, h⟩
    · rw [h]
    · rw [h]
      exact (act_same hact).late

end

/-! ## What holds throughout a run -/

structure Inv (s : Teardown) : Prop where
  joined : Joined s.destructor → s.acceptor = .ended
  early : s.destructor ≠ .returned → s.late = []
  closing : ∀ k, s.destructor = .closing k → s.clientsMu = some .destructor
  inside : ∀ i p, s.threads[i]? = some p → Inside p → s.clientsMu = some (.client i)

section
variable {kind : ServerKind} {s : Teardown}

theorem inv_start : ({} : Teardown).Inv where
  joined h := by rcases h with h | ⟨k, h⟩ | h <;> cases h
  early _ := rfl
  closing _ h := by cases h
  inside i p h := by cases i <;> cases h

theorem Inv.acceptorStep (h : s.Inv) (arrives : Bool) : (s.acceptorStep kind arrives).Inv := by
  have hnot : s.acceptor ≠ .ended → ¬ Joined s.destructor := fun hne hj => hne (h.joined hj)
  unfold Teardown.acceptorStep
  split
  · next ha =>
      refine ⟨fun hj => absurd hj (hnot ?_), h.early, h.closing, h.inside⟩
      rw [ha]
      exact AcceptPoint.noConfusion
  · next ha =>
      have hacc : ¬ Joined s.destructor := hnot (by rw [ha]; exact AcceptPoint.noConfusion)
      split
      · refine ⟨fun hj => absurd hj hacc, h.early, h.closing, fun i p hp hin => ?_⟩
        rw [List.getElem?_append] at hp
        split at hp
        · exact h.inside i p hp hin
        · rw [List.getElem?_singleton] at hp
          split at hp
          · obtain rfl := Option.some.inj hp
            cases kind <;> exact absurd hin (by simp [ServerKind.start, Inside])
          · cases hp
      · exact ⟨fun hj => absurd hj hacc, h.early, h.closing, h.inside⟩
  · next ha =>
      refine ⟨fun hj => absurd hj (hnot ?_), h.early, h.closing, h.inside⟩
      rw [ha]
      exact AcceptPoint.noConfusion
  · exact h

theorem Inv.destructorStep (h : s.Inv) : s.destructorStep.Inv := by
  unfold Teardown.destructorStep
  cases hd : s.destructor with
  | notCalled =>
      refine ⟨fun hj => ?_, fun _ => h.early (by simp [hd]), fun k hk => ?_, h.inside⟩
      · rcases hj with hj | ⟨k, hj⟩ | hj <;> cases hj
      · cases hk
  | stopped =>
      refine ⟨fun hj => ?_, fun _ => h.early (by simp [hd]), fun k hk => ?_, h.inside⟩
      · rcases hj with hj | ⟨k, hj⟩ | hj <;> cases hj
      · cases hk
  | closedListener =>
      dsimp only
      split
      · next hended =>
          exact ⟨fun _ => hended, fun _ => h.early (by simp [hd]), fun k hk => (by cases hk), h.inside⟩
      · exact h
  | joined =>
      have hended := h.joined (hd ▸ Or.inl rfl)
      dsimp only
      split
      · next hfree =>
          refine ⟨fun _ => hended, fun _ => h.early (by simp [hd]), fun _ _ => rfl,
            fun i p hp hin => ?_⟩
          rw [h.inside i p hp hin] at hfree
          cases hfree
      · exact h
  | closing k =>
      have hended := h.joined (hd ▸ Or.inr (Or.inl ⟨k, rfl⟩))
      have hlocked := h.closing k hd
      dsimp only
      split
      · exact ⟨fun _ => hended, fun _ => h.early (by simp [hd]), fun _ _ => hlocked, h.inside⟩
      · refine ⟨fun _ => hended, fun hne => absurd rfl hne, fun k hk => (by cases hk),
          fun i p hp hin => ?_⟩
        rw [h.inside i p hp hin] at hlocked
        cases hlocked
  | returned => exact h

theorem clientStep_early (h : s.Inv) (i : Nat) (o : Outcome) (hd : s.destructor ≠ .returned) :
    (s.clientStep kind i o).late = [] := by
  cases hp : s.threads[i]? with
  | none =>
      rw [clientStep, hp]
      exact h.early hd
  | some p => rw [clientStep_late hp, noteUse_late_of_not_returned hd, h.early hd]

theorem Inv.clientStep (h : s.Inv) (i : Nat) (o : Outcome) : (s.clientStep kind i o).Inv := by
  obtain ⟨hdestructor, hacceptor, -⟩ := clientStep_others kind s i o
  have hjoined : Joined (s.clientStep kind i o).destructor →
      (s.clientStep kind i o).acceptor = .ended := by
    rw [hdestructor, hacceptor]
    exact h.joined
  have hearly : (s.clientStep kind i o).destructor ≠ .returned →
      (s.clientStep kind i o).late = [] := by
    rw [hdestructor]
    exact clientStep_early h i o
  refine ⟨hjoined, hearly, fun k hk => ?_, fun j q hq hin => ?_⟩
  · have hlocked := h.closing k (hdestructor ▸ hk)
    rcases clientStep_cases kind s i o with ⟨-, hs⟩ | ⟨p, hp, ⟨-, hs⟩ | ⟨s', hact, hs⟩⟩
    · rw [hs]
      exact hlocked
    · rw [hs, noteUse_clientsMu]
      exact hlocked
    · rw [hs]
      show s'.clientsMu = _
      rcases act_clientsMu kind o hact with ⟨hfree, -⟩ | ⟨hp', -⟩ | ⟨hsame, -⟩
      · rw [noteUse_clientsMu, hlocked] at hfree
        cases hfree
      · rw [h.inside i p hp hp'] at hlocked
        cases hlocked
      · rw [hsame, noteUse_clientsMu, hlocked]
  · rcases clientStep_cases kind s i o with ⟨-, hs⟩ | ⟨p, hp, ⟨-, hs⟩ | ⟨s', hact, hs⟩⟩
    · rw [hs] at hq ⊢
      exact h.inside j q hq hin
    · rw [hs, noteUse_threads] at hq
      rw [hs, noteUse_clientsMu]
      exact h.inside j q hq hin
    · rw [hs] at hq ⊢
      show s'.clientsMu = _
      have hold := act_clientsMu kind o hact
      rw [noteUse_clientsMu] at hold
      by_cases hij : i = j
      · subst hij
        have hnext : p.next kind s.running o = q := by
          rw [List.getElem?_set_self (List.getElem?_eq_some_iff.1 hp).1] at hq
          exact Option.some.inj hq
        rcases hold with ⟨-, hlock⟩ | ⟨-, hout⟩ | ⟨hsame, hstay⟩
        · exact hlock
        · exact absurd (hnext ▸ hin) (hout _)
        · rw [hsame]
          exact h.inside i p hp (hstay s.running (hnext ▸ hin))
      · have hq : s.threads[j]? = some q := by rwa [List.getElem?_set_ne hij] at hq
        have hlocked := h.inside j q hq hin
        rcases hold with ⟨hfree, -⟩ | ⟨hp', -⟩ | ⟨hsame, -⟩
        · rw [hlocked] at hfree
          cases hfree
        · rw [h.inside i p hp hp'] at hlocked
          exact absurd (MutexHolder.client.inj (Option.some.inj hlocked)) hij
        · rw [hsame, hlocked]

theorem Inv.step (h : s.Inv) (t : Turn) : (s.step kind t).Inv := by
  cases t with
  | acceptor arrives => exact h.acceptorStep arrives
  | destructor => exact h.destructorStep
  | client i o => exact h.clientStep i o

theorem inv_run (kind : ServerKind) (turns : List Turn) : (run kind {} turns).Inv :=
  foldl_keeps (fun _ t h => h.step t) turns _ inv_start

/-- What `clients_mu_` does give: no thread is inside when the destructor returns. -/
theorem Inv.not_inside (h : s.Inv) (hreturn : s.AboutToReturn) : ∀ p ∈ s.threads, ¬ Inside p := by
  intro p hp hin
  obtain ⟨k, hk, -⟩ := hreturn
  obtain ⟨i, hi⟩ := List.mem_iff_getElem?.1 hp
  have hlocked := h.closing k hk
  rw [h.inside i p hi hin] at hlocked
  cases hlocked

end

/-! ## After the return -/

/-- Every thread has ended, and so has the accept thread. -/
structure Quiet (s : Teardown) : Prop where
  returned : s.destructor = .returned
  acceptor : s.acceptor = .ended
  ended : s.AllEnded
  late : s.late = []

/-- From the point the thread can get to one that uses a member. -/
inductive GetsToUse (kind : ServerKind) (running : Bool) : ClientPoint → Prop
  | now {p : ClientPoint} (m : Member) (h : p.uses = some m) : GetsToUse kind running p
  | later {p : ClientPoint} (o : Outcome) (h : p.uses = none) :
      GetsToUse kind running (p.next kind running o) → GetsToUse kind running p

section
variable {kind : ServerKind} {s : Teardown}

theorem Quiet.step (h : s.Quiet) (t : Turn) : (s.step kind t).Quiet := by
  cases t with
  | acceptor arrives =>
      show (s.acceptorStep kind arrives).Quiet
      rw [Teardown.acceptorStep, h.acceptor]
      exact h
  | destructor =>
      show s.destructorStep.Quiet
      rw [Teardown.destructorStep, h.returned]
      exact h
  | client i o =>
      obtain ⟨hdestructor, hacceptor, -⟩ := clientStep_others kind s i o
      refine ⟨hdestructor.trans h.returned, hacceptor.trans h.acceptor, ?_, ?_⟩
      · rcases clientStep_cases kind s i o with ⟨-, hs⟩ | ⟨p, hp, ⟨-, hs⟩ | ⟨s', -, hs⟩⟩
        · show (s.clientStep kind i o).AllEnded
          rw [hs]
          exact h.ended
        · show (s.clientStep kind i o).AllEnded
          rw [hs, AllEnded, noteUse_threads]
          exact h.ended
        · show (s.clientStep kind i o).AllEnded
          rw [hs]
          intro q hq
          rcases List.mem_or_eq_of_mem_set hq with hq | hq
          · exact h.ended q hq
          · rw [hq, h.ended p (List.mem_of_getElem? hp)]
            rfl
      · show (s.clientStep kind i o).late = []
        cases hp : s.threads[i]? with
        | none =>
            rw [clientStep, hp]
            exact h.late
        | some p =>
            rw [clientStep_late hp, noteUse_late_of_returned h.returned, h.late,
              h.ended p (List.mem_of_getElem? hp)]
            rfl

theorem getsToUse (kind : ServerKind) (running : Bool) {p : ClientPoint} (hp : p ≠ .ended) :
    GetsToUse kind running p := by
  have hlock : GetsToUse kind running .lockToRemove := .now .clientsMu rfl
  cases p with
  | ended => exact absurd rfl hp
  | handshake => exact .later .good rfl (.now .clientsMu rfl)
  | frame => exact .later .bad rfl hlock
  | receive => exact .later .bad rfl (.later .bad rfl hlock)
  | testMethod => exact .later .bad rfl (.later .bad rfl hlock)
  | respond => exact .later .bad rfl hlock
  | closeFailed => exact .later .bad rfl hlock
  | lockToPush | push | unlockPushed | announce | testRunning | testPath | lockToCopy | copy
  | unlockCopied | contentType | lockToRemove | remove | unlockRemoved => exact .now _ rfl

/-- The turns that take the thread there. -/
theorem late_of_getsToUse {p : ClientPoint} {running : Bool} (h : GetsToUse kind running p) :
    ∀ {s : Teardown} {i : Nat}, s.running = running → s.destructor = .returned →
      s.threads[i]? = some p → ∃ more, (run kind s more).late ≠ [] := by
  induction h with
  | now m huses =>
      intro s i _ hd hp
      refine ⟨[.client i .good], ?_⟩
      show (s.clientStep kind i .good).late ≠ []
      rw [clientStep_late hp, noteUse_late_of_returned hd, huses]
      exact List.append_ne_nil_of_right_ne_nil _ (List.cons_ne_nil _ _)
  | @later p o huses _ ih =>
      intro s i hrunning hd hp
      have hthread : (s.clientStep kind i o).threads[i]? = some (p.next kind running o) := by
        rcases clientStep_cases kind s i o with ⟨hnone, -⟩ | ⟨q, hq, hstep⟩
        · rw [hp] at hnone
          cases hnone
        · obtain rfl := Option.some.inj (hp.symm.trans hq)
          rcases hstep with ⟨hact, -⟩ | ⟨s', -, hs⟩
          · rw [act_of_uses_none huses] at hact
            cases hact
          · rw [hs, hrunning]
            exact List.getElem?_set_self (List.getElem?_eq_some_iff.1 hp).1
      obtain ⟨hdestructor, -, hsame⟩ := clientStep_others kind s i o
      obtain ⟨more, hmore⟩ := ih (hsame.trans hrunning) (hdestructor.trans hd) hthread
      exact ⟨.client i o :: more, hmore⟩

theorem acceptorStep_destructor (arrives : Bool) :
    (s.acceptorStep kind arrives).destructor = s.destructor := by
  unfold Teardown.acceptorStep
  split
  · rfl
  · split <;> rfl
  · rfl
  · rfl

theorem destructorStep_returns (h : s.AboutToReturn) :
    s.destructorStep = { s with clientsMu := none, destructor := .returned } := by
  obtain ⟨k, hk, hlen⟩ := h
  rw [Teardown.destructorStep, hk]
  exact if_neg (Nat.not_lt.2 hlen)

/-- Only its last step returns. -/
theorem aboutToReturn_of_returned {t : Turn} (hd : s.destructor ≠ .returned)
    (hd' : (s.step kind t).destructor = .returned) : t = .destructor ∧ s.AboutToReturn := by
  cases t with
  | acceptor arrives => exact absurd ((acceptorStep_destructor arrives).symm.trans hd') hd
  | client i o => exact absurd ((clientStep_others kind s i o).1.symm.trans hd') hd
  | destructor =>
      refine ⟨rfl, ?_⟩
      change s.destructorStep.destructor = .returned at hd'
      unfold Teardown.destructorStep at hd'
      cases hs : s.destructor with
      | notCalled => simp [hs] at hd'
      | stopped => simp [hs] at hd'
      | closedListener =>
          rw [hs] at hd'
          dsimp only at hd'
          split at hd' <;> simp [hs] at hd'
      | joined =>
          rw [hs] at hd'
          dsimp only at hd'
          split at hd' <;> simp [hs] at hd'
      | closing k =>
          refine ⟨k, hs, Nat.le_of_not_lt fun hlt => ?_⟩
          rw [hs] at hd'
          dsimp only at hd'
          rw [if_pos hlt] at hd'
          cases hd'
      | returned => exact absurd hs hd

theorem Inv.quiet (h : s.Inv) (hreturn : s.AboutToReturn) (hended : s.AllEnded) :
    s.destructorStep.Quiet := by
  rw [destructorStep_returns hreturn]
  obtain ⟨k, hk, -⟩ := hreturn
  exact ⟨rfl, h.joined (Or.inr (Or.inl ⟨k, hk⟩)), hended, h.early (by simp [hk])⟩

/-- In a run in which the destructor returns last, no thread goes on after it. -/
theorem late_nil_of_returnsLast (kind : ServerKind) (turns : List Turn)
    (hlast : Along (step kind) ReturnsLast {} turns) : (run kind {} turns).late = [] := by
  have hkeep : ∀ (s : Teardown) (t : Turn), (s.Inv ∧ (s.destructor = .returned → s.Quiet)) →
      s.ReturnsLast t →
        (s.step kind t).Inv ∧ ((s.step kind t).destructor = .returned → (s.step kind t).Quiet) := by
    intro s t ⟨hinv, hquiet⟩ hC
    refine ⟨hinv.step t, fun hd' => ?_⟩
    by_cases hd : s.destructor = .returned
    · exact (hquiet hd).step t
    · obtain ⟨rfl, hreturn⟩ := aboutToReturn_of_returned hd hd'
      exact hinv.quiet hreturn (hC rfl hreturn)
  have hend : (run kind {} turns).Inv ∧
      ((run kind {} turns).destructor = .returned → (run kind {} turns).Quiet) :=
    Along.keeps hkeep ⟨inv_start, fun h => by cases h⟩ hlast
  by_cases hd : (run kind {} turns).destructor = .returned
  · exact (hend.2 hd).late
  · exact hend.1.early hd

/-- A run in which the destructor returns last uses no member late. More exactly, at the destructor's
last step: no member is used late, whatever happens next, exactly if every client's thread has
ended. -/
theorem late_use_iff (kind : ServerKind) (turns : List Turn) :
    (Along (step kind) ReturnsLast {} turns → (run kind {} turns).late = []) ∧
      ((run kind {} turns).AboutToReturn →
        ((∀ more, (run kind {} (turns ++ .destructor :: more)).late = []) ↔
          (run kind {} turns).AllEnded)) := by
  refine ⟨late_nil_of_returnsLast kind turns, fun hreturn => ?_⟩
  have hrun : ∀ more, run kind {} (turns ++ .destructor :: more)
      = run kind (run kind {} turns).destructorStep more := fun more => List.foldl_append
  simp only [hrun]
  have hinv := inv_run kind turns
  generalize run kind {} turns = s at hreturn hinv
  constructor
  · intro hnever p hp
    by_contra hne
    obtain ⟨i, hi⟩ := List.mem_iff_getElem?.1 hp
    obtain ⟨more, hmore⟩ := late_of_getsToUse (getsToUse kind s.running hne)
      (s := { s with clientsMu := none, destructor := .returned }) rfl rfl hi
    refine hmore ?_
    rw [← destructorStep_returns hreturn]
    exact hnever more
  · intro hended more
    exact (foldl_keeps (fun _ t h => h.step t) more _ (hinv.quiet hreturn hended)).late

/-! A client that waits in `recv` when the destructor runs, and its thread's next steps. -/

/-- The accept thread starts a client's thread, which gets to `recv`; the destructor runs. -/
def destroyedInRecv (kind : ServerKind) : List Turn :=
  [.acceptor true, .acceptor true] ++
    List.replicate (match kind with | .webSocket => 6 | .http => 3) (.client 0 .good) ++
    [.destructor, .destructor, .acceptor false, .destructor, .destructor, .destructor, .destructor]

theorem late_use :
    (run .webSocket {} (destroyedInRecv .webSocket)).destructor = .returned ∧
    (run .webSocket {} (destroyedInRecv .webSocket)).threads = [.frame] ∧
    (run .webSocket {} (destroyedInRecv .webSocket ++ [.client 0 .bad, .client 0 .bad])).late
      = [(0, .clientsMu)] ∧
    (run .http {} (destroyedInRecv .http)).destructor = .returned ∧
    (run .http {} (destroyedInRecv .http)).threads = [.receive] ∧
    (run .http {} (destroyedInRecv .http ++
      [.client 0 .bad, .client 0 .bad, .client 0 .bad])).late = [(0, .clientsMu)] := by
  decide +kernel

end

end Teardown

end Mawmaw.Pub
