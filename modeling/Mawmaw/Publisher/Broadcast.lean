import Mathlib.Data.List.InsertIdx
import Mawmaw.Publisher.Descriptors
import Mawmaw.Publisher.WebSocketFrames

/-!
# What `publish` sends to the WebSocket clients

The steps of `Descriptors` with the events of the `publish` calls and the bytes these put on each
connection. A `publish` call holds `clients_mu_` while it goes through `clients_`; each `::send` of a
client's frame accepts some bytes or fails. Clients join and leave between the calls.

* `Feed`, `Feed.step` : the endpoint, and one step;
* `Got` : a client has been sent the frames of a run of events, and a part of the next one;
* `Broadcasts`, `broadcast_in_order` : a client has the events from the first one after it joined,
  without a gap and in order.
-/

namespace Mawmaw.Pub
open Mawmaw.Lib Mawmaw.Core

variable {P : Nat}

/-! ## The code -/

/-- The frame of an event. -/
def textFrame (ev : Event P) : List UInt8 := wsFrame 0x1 (toJson ev)

theorem textFrame_ne_nil (ev : Event P) : textFrame ev ≠ [] := wsFrame_ne_nil _ _

/-- `frame` is that of the `publish` call in progress, `left` what its current client has not been
sent of it. The rest is what happened: the events of the calls that have taken the mutex, how many
there were when a client was put into `clients_`, and the bytes the calls put on each connection. -/
structure Feed (P : Nat) where
  base : Clients := {}
  frame : List UInt8 := []
  left : List UInt8 := []
  events : List (Event P) := []
  joined : Nat → Nat := fun _ => 0
  sent : Nat → List UInt8 := fun _ => []

/-- `publish`: a step of the call in progress, or of the next one, for `ev`; `n` bytes are accepted
if the step is a `::send`, which has failed if these are none. -/
inductive FeedTurn (P : Nat)
  | accept (fd : Nat)
  | handler (i : Nat) (ok : Bool)
  | publish (ev : Event P) (n : Nat)

namespace Clients

/-! ## Steps of a handler -/

/-- No `publish` call is in progress. -/
def Idle (s : Clients) : Prop := s.mutex = .nobody ∨ ∃ i k, s.mutex = .handler i k

/-- The handler has not put its client into `clients_` yet. -/
def Ahead (s : Clients) (i : Nat) : Prop := s.phase i = .unstarted ∨ (s.phase i).Early

section
variable {s : Clients} {i j : Nat} {ok : Bool}

theorem handlerStep_push (hi : s.phase i = .pushing) (hm : s.mutex = .nobody) :
    s.handlerStep i ok = s.push i := by
  rw [handlerStep, hi]
  exact if_pos hm

/-- A step that puts no client into the list. -/
theorem handlerStep_move (ok : Bool) (h : ¬(s.phase i = .pushing ∧ s.mutex = .nobody)) :
    ((s.handlerStep i ok).clients = s.clients ∧ (s.handlerStep i ok).mutex = s.mutex) ∨
    (s.Idle ∧ (s.handlerStep i ok).Idle ∧ ∀ e ∈ (s.handlerStep i ok).clients, e ∈ s.clients) := by
  unfold handlerStep
  cases hi : s.phase i with
  | unstarted | ended => exact Or.inl ⟨rfl, rfl⟩
  | handshaking =>
      cases ok with
      | true => exact Or.inl ⟨rfl, rfl⟩
      | false => exact Or.inl ⟨rfl, rfl⟩
  | pushing =>
      dsimp only
      rw [if_neg fun hm => h ⟨hi, hm⟩]
      exact Or.inl ⟨rfl, rfl⟩
  | serving =>
      cases ok with
      | true => exact Or.inl ⟨rfl, rfl⟩
      | false => exact Or.inl ⟨rfl, rfl⟩
  | leaving =>
      cases hm : s.mutex with
      | publish k | dropping k => exact Or.inl ⟨rfl, hm⟩
      | nobody =>
          dsimp only
          split
          · exact Or.inr ⟨Or.inl hm, Or.inr ⟨i, _, rfl⟩, fun e he => he⟩
          · exact Or.inl ⟨rfl, hm⟩
      | handler j k =>
          dsimp only
          split
          · exact Or.inr ⟨Or.inr ⟨j, k, hm⟩, Or.inl rfl, fun e he => List.mem_of_mem_eraseIdx he⟩
          · exact Or.inl ⟨rfl, hm⟩

theorem ahead_setPhase {x : ThreadPhase} (hx : x = .unstarted ∨ x.Early → s.Ahead i)
    (h : (s.setPhase i x).Ahead j) : s.Ahead j := by
  unfold Ahead at h
  by_cases hji : j = i
  · subst hji
    rw [show (s.setPhase j x).phase j = x from Function.update_self ..] at h
    exact hx h
  · rwa [show (s.setPhase i x).phase j = s.phase j from Function.update_of_ne hji ..] at h

theorem ahead_handlerStep (h : (s.handlerStep i ok).Ahead j) : s.Ahead j := by
  unfold handlerStep at h
  cases hi : s.phase i with
  | unstarted | ended =>
      rw [hi] at h
      exact h
  | handshaking =>
      have hahead : s.Ahead i := Or.inr (Or.inl hi)
      rw [hi] at h
      cases ok with
      | true => exact ahead_setPhase (fun _ => hahead) h
      | false => exact ahead_setPhase (s := s.closeFd (some i) i (s.fd i)) (fun _ => hahead) h
  | pushing =>
      have hahead : s.Ahead i := Or.inr (Or.inr hi)
      rw [hi] at h
      dsimp only at h
      split at h
      · exact ahead_setPhase (s := { s with clients := s.clients ++ [Listed.mk (s.fd i) i] })
          (fun _ => hahead) h
      · exact h
  | serving =>
      rw [hi] at h
      cases ok with
      | true => exact h
      | false => exact ahead_setPhase (fun hx => absurd hx (by decide)) h
  | leaving =>
      rw [hi] at h
      dsimp only at h
      split at h
      · split at h
        · exact h
        · exact ahead_setPhase (fun hx => absurd hx (by decide)) h
      · split at h
        · exact ahead_setPhase (s := { s with clients := _, mutex := _, erases := _ })
            (fun hx => absurd hx (by decide)) h
        · exact h
      · exact h
      · exact h

theorem closes_handlerStep : s.closes <+: (s.handlerStep i ok).closes := by
  unfold handlerStep
  split
  · exact List.prefix_refl _
  · split
    · exact List.prefix_refl _
    · exact List.prefix_append _ _
  · split
    · exact List.prefix_refl _
    · exact List.prefix_refl _
  · split
    · exact List.prefix_refl _
    · exact List.prefix_refl _
  · split
    · split
      · exact List.prefix_append _ _
      · exact List.prefix_refl _
    · split
      · exact List.prefix_refl _
      · exact List.prefix_refl _
    · exact List.prefix_refl _
    · exact List.prefix_refl _
  · exact List.prefix_refl _

end

end Clients

namespace Feed

def handler (s : Feed P) (i : Nat) (ok : Bool) : Feed P :=
  { s with
    base := s.base.handlerStep i ok
    joined := if s.base.phase i = .pushing ∧ s.base.mutex = .nobody then
        Function.update s.joined i s.events.length
      else s.joined }

/-- The call takes the mutex. -/
def enter (s : Feed P) (ev : Event P) : Feed P :=
  { s with
    base := s.base.publishStep true
    frame := textFrame ev
    left := textFrame ev
    events := s.events ++ [ev] }

/-- One `::send` that accepts `n` bytes. -/
def put (s : Feed P) (e : Listed) (n : Nat) : Feed P :=
  let sent := match s.base.table.object e.fd with
    | some o => Function.update s.sent o (s.sent o ++ s.left.take n)
    | none => s.sent
  if n < s.left.length then { s with left := s.left.drop n, sent }
  else { s with base := s.base.publishStep true, left := s.frame, sent }

/-- A `::send` that fails, or the end of the call. -/
def skip (s : Feed P) : Feed P := { s with base := s.base.publishStep false, left := s.frame }

def publish (s : Feed P) (ev : Event P) (n : Nat) : Feed P :=
  match s.base.mutex with
  | .nobody => s.enter ev
  | .publish k =>
    match s.base.clients[k]? with
    | some e => if n = 0 then s.skip else s.put e n
    | none => s.skip
  | .dropping _ => s.skip
  | .handler _ _ => s

def step (s : Feed P) : FeedTurn P → Feed P
  | .accept fd => { s with base := s.base.step (.accept fd) }
  | .handler i ok => s.handler i ok
  | .publish ev n => s.publish ev n

def run (turns : List (FeedTurn P)) : Feed P := turns.foldl step {}

/-! ## Runs of events -/

/-- Sent are the frames of the events from the `j`-th to before the `m`-th, and `t`. -/
structure Got (events : List (Event P)) (j : Nat) (sent : List UInt8) (m : Nat) (t : List UInt8) :
    Prop where
  joined_le : j ≤ m
  le : m ≤ events.length
  bytes : sent = ((events.take m).drop j).flatMap textFrame ++ t

section Got
variable {events : List (Event P)} {ev : Event P} {j m : Nat} {sent t u : List UInt8}

theorem Got.nil (h : j ≤ events.length) : Got events j [] j [] where
  joined_le := Nat.le_refl j
  le := h
  bytes := by
    rw [List.drop_eq_nil_of_le (List.length_take_le j events)]
    rfl

/-- An event more is published. -/
theorem Got.later (h : Got events j sent m t) (ev : Event P) : Got (events ++ [ev]) j sent m t where
  joined_le := h.joined_le
  le := by
    rw [List.length_append]
    exact Nat.le_add_right_of_le h.le
  bytes := by
    rw [List.take_append_of_le_length h.le]
    exact h.bytes

theorem Got.more (h : Got events j sent m t) (u : List UInt8) :
    Got events j (sent ++ u) m (t ++ u) where
  joined_le := h.joined_le
  le := h.le
  bytes := by rw [h.bytes, List.append_assoc]

/-- The frame of the last event is sent as a whole. -/
theorem Got.whole (h : Got (events ++ [ev]) j sent events.length (textFrame ev)) :
    Got (events ++ [ev]) j sent (events ++ [ev]).length [] where
  joined_le := by
    rw [List.length_append]
    exact Nat.le_add_right_of_le h.joined_le
  le := Nat.le_refl _
  bytes := by
    have hbytes := h.bytes
    rw [List.take_left] at hbytes
    rw [List.take_length, List.drop_append_of_le_length h.joined_le, List.flatMap_append, hbytes,
      List.append_nil, List.flatMap_singleton]

end Got

/-! ## The invariant -/

/-- The `publish` call in progress is sending to the connection. -/
def Current (s : Feed P) (i : Nat) : Prop :=
  ∃ k e, s.base.mutex = .publish k ∧ s.base.clients[k]? = some e ∧ e.conn = i

/-- The connection has the frames of the first `m` events and `t`, from where it joined. -/
def Has (s : Feed P) (i m : Nat) (t : List UInt8) : Prop := Got s.events (s.joined i) (s.sent i) m t

/-- A part of a frame is all that is sent of it where the call is not over or has dropped the
client. -/
def Part (s : Feed P) (i m : Nat) (t : List UInt8) : Prop :=
  ∃ ev, s.events[m]? = some ev ∧ t <+: textFrame ev ∧ t ≠ textFrame ev ∧
    (s.Current i ∨ s.base.Dropped i)

/-- The call in progress publishes `ev` after the `past` events and has reached the `k`-th client. -/
structure Going (s : Feed P) (past : List (Event P)) (ev : Event P) (k : Nat) : Prop where
  events : s.events = past ++ [ev]
  frame : s.frame = textFrame ev
  before : ∀ e ∈ s.base.clients.take k, s.Has e.conn s.events.length []
  after : ∀ e ∈ s.base.clients.drop (k + 1), s.Has e.conn past.length []

/-- What the listed clients have, by who holds the mutex. -/
inductive Round (s : Feed P) : Prop
  | idle (hm : s.base.Idle)
      (hall : ∀ e ∈ s.base.clients, s.Has e.conn s.events.length [])
  | sending (past ev k) (hm : s.base.mutex = .publish k) (hgoing : s.Going past ev k)
      (hleft : s.left ≠ [])
      (hnow : ∀ e, s.base.clients[k]? = some e →
        ∃ t, t ++ s.left = textFrame ev ∧ s.Has e.conn past.length t)
  | dropping (past ev k) (hm : s.base.mutex = .dropping k) (hgoing : s.Going past ev k)
      (hleft : s.left = s.frame)

structure Broadcasts (s : Feed P) : Prop where
  base : s.base.Inv
  round : s.Round
  ahead : ∀ i, s.base.Ahead i → s.sent i = []
  cut : ∀ i, ∃ m t, s.Has i m t ∧ (t = [] ∨ s.Part i m t)

theorem broadcasts_start : ({} : Feed P).Broadcasts where
  base := Clients.inv_start
  round := .idle (Or.inl rfl) fun _ he => by cases he
  ahead _ _ := rfl
  cut _ := ⟨0, [], Got.nil (Nat.le_refl _), Or.inl rfl⟩

section
variable {s s' : Feed P} {i k n : Nat} {e : Listed} {ev : Event P}

/-! ### Steps that send nothing -/

theorem Round.congr (h : s.Round) (s' : Feed P) (hclients : s'.base.clients = s.base.clients)
    (hmutex : s'.base.mutex = s.base.mutex) (hframe : s'.frame = s.frame) (hleft : s'.left = s.left)
    (hhas : ∀ e ∈ s.base.clients, ∀ m t, s.Has e.conn m t → s'.Has e.conn m t)
    (hevents : s'.events = s.events) : s'.Round := by
  have hgoing : ∀ {past ev k}, s.Going past ev k → s'.Going past ev k := by
    intro past ev k hg
    refine ⟨hevents.trans hg.events, hframe.trans hg.frame, fun e he => ?_, fun e he => ?_⟩
    · rw [hclients] at he
      rw [hevents]
      exact hhas e (List.mem_of_mem_take he) _ _ (hg.before e he)
    · rw [hclients] at he
      exact hhas e (List.mem_of_mem_drop he) _ _ (hg.after e he)
  cases h with
  | idle hm hall =>
      refine .idle (by rwa [Clients.Idle, hmutex]) fun e he => ?_
      rw [hclients] at he
      rw [hevents]
      exact hhas e he _ _ (hall e he)
  | sending past ev k hm hg hne hnow =>
      refine .sending past ev k (hmutex.trans hm) (hgoing hg) (hleft ▸ hne) fun e he => ?_
      rw [hclients] at he
      obtain ⟨t, ht, hhas'⟩ := hnow e he
      exact ⟨t, hleft.symm ▸ ht, hhas e (List.mem_of_getElem? he) _ _ hhas'⟩
  | dropping past ev k hm hg hlast =>
      exact .dropping past ev k (hmutex.trans hm) (hgoing hg) (hleft.trans (hlast.trans hframe.symm))

/-- A step that sends nothing to the connection: a part of a frame stays one. -/
theorem Broadcasts.cut_mono (h : s.Broadcasts) (s' : Feed P) (hevents : s.events <+: s'.events)
    (hhas : ∀ m t, s.Has i m t → s'.Has i m t) (hcloses : s.base.closes <+: s'.base.closes)
    (hcurrent : s.Current i → s'.Current i ∨ s'.base.Dropped i) :
    ∃ m t, s'.Has i m t ∧ (t = [] ∨ s'.Part i m t) := by
  obtain ⟨m, t, hm, ht⟩ := h.cut i
  refine ⟨m, t, hhas m t hm, ht.imp id ?_⟩
  rintro ⟨ev, hev, hpre, hne, hwhy⟩
  refine ⟨ev, ?_, hpre, hne, ?_⟩
  · obtain ⟨more, hmore⟩ := hevents
    rw [← hmore, List.getElem?_append_left (List.getElem?_eq_some_iff.mp hev).1, hev]
  · exact hwhy.elim hcurrent fun hdropped => Or.inr (hdropped.mono hcloses)

theorem Broadcasts.accept (h : s.Broadcasts) (fd : Nat) : (s.step (.accept fd)).Broadcasts := by
  have hbase := h.base.step (.accept fd)
  have hsame : ∀ j m t, s.Has j m t → (s.step (.accept fd)).Has j m t := fun _ _ _ hj => hj
  by_cases hfree : s.base.table.object fd = none
  · have heq : s.base.step (.accept fd) = s.base.accept fd := if_pos hfree
    have hstep : s.step (.accept fd) = { s with base := s.base.accept fd } := by
      rw [Feed.step, heq]
    rw [heq] at hbase
    rw [hstep] at hsame ⊢
    refine ⟨hbase, h.round.congr _ rfl rfl rfl rfl (fun e _ => hsame e.conn) rfl, fun j hj => ?_,
      fun j => h.cut_mono _ (List.prefix_refl _) (hsame j) (List.prefix_refl _) Or.inl⟩
    refine h.ahead j ?_
    by_cases hja : j = s.base.accepted
    · exact hja ▸ Or.inl (h.base.fresh _ (Nat.le_refl _)).1
    · have hphase : (s.base.accept fd).phase j = s.base.phase j := Function.update_of_ne hja ..
      have hj' : (s.base.accept fd).Ahead j := hj
      rwa [Clients.Ahead, hphase] at hj'
  · have hstep : s.step (.accept fd) = s := by
      rw [Feed.step, show s.base.step (.accept fd) = s.base from if_neg hfree]
    rw [hstep]
    exact h

/-- A handler puts its client into the list: it will get the events from here on. -/
theorem Broadcasts.push (h : s.Broadcasts) (ok : Bool) (hi : s.base.phase i = .pushing)
    (hm : s.base.mutex = .nobody) : (s.handler i ok).Broadcasts := by
  have hpush : s.base.handlerStep i ok = s.base.push i := Clients.handlerStep_push hi hm
  have hbase := h.base.handlerStep (i := i) ok
  have hstep : s.handler i ok = { s with
      base := s.base.push i, joined := Function.update s.joined i s.events.length } := by
    rw [handler, hpush, if_pos ⟨hi, hm⟩]
  rw [hpush] at hbase
  rw [hstep]
  have hnew : Feed.Has { s with
      base := s.base.push i, joined := Function.update s.joined i s.events.length }
      i s.events.length [] := by
    show Got s.events (Function.update s.joined i s.events.length i) (s.sent i) _ []
    rw [Function.update_self, h.ahead i (Or.inr (Or.inr hi))]
    exact Got.nil (Nat.le_refl _)
  have hold : ∀ j, j ≠ i → ∀ m t, s.Has j m t → Feed.Has { s with
      base := s.base.push i, joined := Function.update s.joined i s.events.length } j m t := by
    intro j hji m t hj
    show Got s.events (Function.update s.joined i s.events.length j) (s.sent j) m t
    rw [Function.update_of_ne hji]
    exact hj
  have hlisted : ∀ e ∈ s.base.clients, e.conn ≠ i := by
    rintro e he rfl
    rw [← Clients.live_of_nobody hm] at he
    exact (h.base.listed e he).2 (Or.inr hi)
  have hall : ∀ e ∈ s.base.clients, s.Has e.conn s.events.length [] := by
    cases h.round with
    | idle _ hall => exact hall
    | sending _ _ _ hm' => cases hm.symm.trans hm'
    | dropping _ _ _ hm' => cases hm.symm.trans hm'
  refine ⟨hbase, .idle (Or.inl hm) fun e he => ?_, fun j hj => ?_, fun j => ?_⟩
  · rcases List.mem_append.mp (show e ∈ s.base.clients ++ [Listed.mk (s.base.fd i) i] from he) with
      he | he
    · exact hold e.conn (hlisted e he) _ _ (hall e he)
    · rw [List.mem_singleton.mp he]
      exact hnew
  · have hj' : (s.base.handlerStep i ok).Ahead j := by
      rw [hpush]
      exact hj
    exact h.ahead j (Clients.ahead_handlerStep hj')
  · by_cases hji : j = i
    · rw [hji]
      exact ⟨_, [], hnew, Or.inl rfl⟩
    · refine h.cut_mono _ (List.prefix_refl _) (hold j hji) (List.prefix_refl _) fun hcurrent => ?_
      obtain ⟨k, e, hk, -⟩ := hcurrent
      rw [hm] at hk
      cases hk

theorem Broadcasts.handler (h : s.Broadcasts) (ok : Bool) : (s.handler i ok).Broadcasts := by
  by_cases hpush : s.base.phase i = .pushing ∧ s.base.mutex = .nobody
  · exact h.push ok hpush.1 hpush.2
  · have hbase := h.base.handlerStep (i := i) ok
    have hstep : s.handler i ok = { s with base := s.base.handlerStep i ok } := by
      rw [Feed.handler, if_neg hpush]
    rw [hstep]
    have hahead : ∀ j, (s.base.handlerStep i ok).Ahead j → s.sent j = [] := fun j hj =>
      h.ahead j (Clients.ahead_handlerStep hj)
    have hcut : ∀ j, (s.Current j → Feed.Current { s with base := s.base.handlerStep i ok } j) →
        ∃ m t, Feed.Has { s with base := s.base.handlerStep i ok } j m t ∧
          (t = [] ∨ Feed.Part { s with base := s.base.handlerStep i ok } j m t) := fun j hcurrent =>
      h.cut_mono _ (List.prefix_refl _) (fun _ _ hm => hm) Clients.closes_handlerStep
        fun hj => Or.inl (hcurrent hj)
    rcases Clients.handlerStep_move ok hpush with ⟨hclients, hmutex⟩ | ⟨hidle, hidle', hsub⟩
    · refine ⟨hbase, h.round.congr _ hclients hmutex rfl rfl (fun _ _ _ _ he => he) rfl, hahead,
        fun j => hcut j fun ⟨k, e, hk, he, hj⟩ => ⟨k, e, hmutex.trans hk, ?_, hj⟩⟩
      rw [← he]
      exact congrArg (·[k]?) hclients
    · refine ⟨hbase, .idle hidle' fun e he => ?_, hahead, fun j => hcut j fun ⟨k, e, hk, _, _⟩ => ?_⟩
      · cases h.round with
        | idle _ hall => exact hall e (hsub e he)
        | sending _ _ _ hm =>
            rcases hidle with hm' | ⟨_, _, hm'⟩ <;> cases hm'.symm.trans hm
        | dropping _ _ _ hm =>
            rcases hidle with hm' | ⟨_, _, hm'⟩ <;> cases hm'.symm.trans hm
      · rcases hidle with hm' | ⟨_, _, hm'⟩ <;> cases hm'.symm.trans hk

/-! ### Steps of `publish` -/

/-- The client in turn is open under its number, and no other listed client is the same. -/
theorem Broadcasts.at_turn (h : s.Broadcasts) (hm : s.base.mutex = .publish k)
    (hk : s.base.clients[k]? = some e) :
    s.base.table.object e.fd = some e.conn ∧ ¬s.base.Ahead e.conn ∧
      (∀ a ∈ s.base.clients.take k, a.conn ≠ e.conn) ∧
      ∀ a ∈ s.base.clients.drop (k + 1), a.conn ≠ e.conn := by
  have hlive : s.base.live = s.base.clients := by
    unfold Clients.live Clients.closedAt
    rw [hm]
  have hmem : ∀ a ∈ s.base.clients, s.base.table.object a.fd = some a.conn := fun a ha =>
    (h.base.listed a (hlive ▸ ha)).1
  have hobject := hmem e (List.mem_of_getElem? hk)
  have hearly := (h.base.listed e (hlive ▸ List.mem_of_getElem? hk)).2
  have hother : ∀ a ∈ s.base.clients.eraseIdx k, a.conn ≠ e.conn := by
    intro a ha heq
    have hne := Clients.fd_ne_of_mem_eraseIdx (hlive ▸ h.base.nodup) hk ha
    have hobject' := hmem a (List.mem_of_mem_eraseIdx ha)
    rw [heq] at hobject'
    exact hne (h.base.table.unique _ _ _ hobject' hobject)
  rw [List.eraseIdx_eq_take_drop_succ] at hother
  refine ⟨hobject, ?_, fun a ha => hother a (List.mem_append_left _ ha),
    fun a ha => hother a (List.mem_append_right _ ha)⟩
  rintro (hunstarted | hearly')
  · exact (h.base.owner _ _ hobject).1 hunstarted
  · exact hearly hearly'

theorem Broadcasts.enter (h : s.Broadcasts) (hm : s.base.mutex = .nobody) (ev : Event P) :
    (s.enter ev).Broadcasts := by
  have hbase := h.base.publishStep true
  have hstep : s.base.publishStep true = { s.base with mutex := .publish 0 } := by
    rw [Clients.publishStep, hm]
  rw [hstep] at hbase
  rw [Feed.enter, hstep]
  have hlater : ∀ j m t, s.Has j m t → Got (s.events ++ [ev]) (s.joined j) (s.sent j) m t :=
    fun _ _ _ hj => hj.later ev
  have hall : ∀ e ∈ s.base.clients, s.Has e.conn s.events.length [] := by
    cases h.round with
    | idle _ hall => exact hall
    | sending _ _ _ hm' => cases hm.symm.trans hm'
    | dropping _ _ _ hm' => cases hm.symm.trans hm'
  refine ⟨hbase, .sending s.events ev 0 rfl ⟨rfl, rfl, ?_, fun e he => ?_⟩
    (textFrame_ne_nil ev) fun e he => ⟨[], rfl, ?_⟩, h.ahead, fun j => ?_⟩
  · intro e he
    cases he
  · exact hlater _ _ _ (hall e (List.mem_of_mem_drop he))
  · exact hlater _ _ _ (hall e (List.mem_of_getElem? he))
  · refine h.cut_mono _ (List.prefix_append _ _) (hlater j) (List.prefix_refl _) fun hcurrent => ?_
    obtain ⟨k, e, hk, -⟩ := hcurrent
    rw [hm] at hk
    cases hk

/-- The send fails, or the call has reached the end of the list, or it erases the client it has
dropped. -/
theorem Broadcasts.skip (h : s.Broadcasts)
    (hm : (∃ k, s.base.mutex = .publish k) ∨ ∃ k, s.base.mutex = .dropping k) :
    s.skip.Broadcasts := by
  have hbase := h.base.publishStep false
  cases h.round with
  | idle hidle =>
      rcases hm with ⟨k, hm⟩ | ⟨k, hm⟩ <;> rcases hidle with hidle | ⟨_, _, hidle⟩ <;>
        cases hm.symm.trans hidle
  | sending past ev k hm hgoing hleft hnow =>
      cases hk : s.base.clients[k]? with
      | none =>
          have hstep : s.base.publishStep false = { s.base with mutex := .nobody } := by
            rw [Clients.publishStep, hm]
            dsimp only
            rw [hk]
          rw [hstep] at hbase
          rw [Feed.skip, hstep]
          refine ⟨hbase, .idle (Or.inl rfl) fun e he => ?_, h.ahead, fun j => ?_⟩
          · refine hgoing.before e ?_
            rwa [List.take_of_length_le (List.getElem?_eq_none_iff.mp hk)]
          · refine h.cut_mono _ (List.prefix_refl _) (fun _ _ hj => hj) (List.prefix_refl _) ?_
            rintro ⟨k', e, hm', hk', -⟩
            obtain rfl := Holder.publish.inj (hm.symm.trans hm')
            rw [hk] at hk'
            cases hk'
      | some e =>
          have hstep : s.base.publishStep false = s.base.drop k e := by
            rw [Clients.publishStep, hm]
            dsimp only
            rw [hk]
            rfl
          rw [hstep] at hbase
          rw [Feed.skip, hstep]
          refine ⟨hbase, .dropping past ev k rfl
            ⟨hgoing.events, hgoing.frame, hgoing.before, hgoing.after⟩ rfl, h.ahead, fun j => ?_⟩
          refine h.cut_mono _ (List.prefix_refl _) (fun _ _ hj => hj) (List.prefix_append _ _) ?_
          rintro ⟨k', e', hm', hk', rfl⟩
          obtain rfl := Holder.publish.inj (hm.symm.trans hm')
          rw [hk] at hk'
          obtain rfl := Option.some.inj hk'
          exact Or.inr ⟨_, List.mem_append_right _ (List.mem_singleton_self _), rfl, rfl⟩
  | dropping past ev k hm hgoing hleft =>
      have hstep : s.base.publishStep false = s.base.eraseDropped k := by
        rw [Clients.publishStep, hm]
      rw [hstep] at hbase
      rw [Feed.skip, hstep]
      have htake : (s.base.clients.eraseIdx k).take k = s.base.clients.take k :=
        List.take_eraseIdx_eq_take_of_le _ _ _ (Nat.le_refl k)
      have hdrop : ∀ e ∈ (s.base.clients.eraseIdx k).drop k, e ∈ s.base.clients.drop (k + 1) := by
        intro e he
        rcases Nat.lt_or_ge k s.base.clients.length with hlt | hge
        · have hlen : (s.base.clients.take k).length = k := List.length_take_of_le (Nat.le_of_lt hlt)
          rwa [List.eraseIdx_eq_take_drop_succ, List.drop_left' hlen] at he
        · rw [List.eraseIdx_of_length_le hge, List.drop_eq_nil_of_le hge] at he
          cases he
      refine ⟨hbase, .sending past ev k rfl
        ⟨hgoing.events, hgoing.frame, fun e he => ?_, fun e he => ?_⟩ ?_
        fun e he => ⟨[], hgoing.frame, ?_⟩, h.ahead, fun j => ?_⟩
      · exact hgoing.before e (htake ▸ he)
      · refine hgoing.after e (hdrop e ?_)
        have he' : e ∈ (s.base.clients.eraseIdx k).drop (k + 1) := he
        rw [← List.drop_drop] at he'
        exact List.mem_of_mem_drop he'
      · show s.frame ≠ []
        rw [hgoing.frame]
        exact textFrame_ne_nil ev
      · refine hgoing.after e (hdrop e ?_)
        have he' : (s.base.clients.eraseIdx k)[k]? = some e := he
        rw [List.mem_iff_getElem?]
        exact ⟨0, by rw [List.getElem?_drop, Nat.add_zero, he']⟩
      · refine h.cut_mono _ (List.prefix_refl _) (fun _ _ hj => hj) (List.prefix_refl _) ?_
        rintro ⟨k', e', hm', -⟩
        cases hm.symm.trans hm'

/-- One `::send`: the client in turn has more of the frame, or all of it. -/
theorem Broadcasts.put (h : s.Broadcasts) (hm : s.base.mutex = .publish k)
    (hk : s.base.clients[k]? = some e) : (s.put e n).Broadcasts := by
  obtain ⟨hobject, hahead, hbefore, hafter⟩ := h.at_turn hm hk
  have hsent : (match s.base.table.object e.fd with
      | some o => Function.update s.sent o (s.sent o ++ s.left.take n)
      | none => s.sent) = Function.update s.sent e.conn (s.sent e.conn ++ s.left.take n) := by
    rw [hobject]
  cases h.round with
  | idle hidle =>
      rcases hidle with hidle | ⟨_, _, hidle⟩ <;> cases hm.symm.trans hidle
  | dropping _ _ _ hm' => cases hm.symm.trans hm'
  | sending past ev k' hm' hgoing hleft hnow =>
      obtain rfl := Holder.publish.inj (hm.symm.trans hm')
      obtain ⟨t, ht, hhas⟩ := hnow e hk
      have hother : ∀ j, j ≠ e.conn → ∀ m u, s.Has j m u →
          Got s.events (s.joined j)
            (Function.update s.sent e.conn (s.sent e.conn ++ s.left.take n) j) m u := by
        intro j hj m u hu
        rw [Function.update_of_ne hj]
        exact hu
      have hself : Got s.events (s.joined e.conn)
          (Function.update s.sent e.conn (s.sent e.conn ++ s.left.take n) e.conn) past.length
          (t ++ s.left.take n) := by
        rw [Function.update_self]
        exact hhas.more _
      have hsilent : ∀ j, s.base.Ahead j →
          Function.update s.sent e.conn (s.sent e.conn ++ s.left.take n) j = [] := by
        intro j hj
        have hne : j ≠ e.conn := by
          rintro rfl
          exact hahead hj
        rw [Function.update_of_ne hne]
        exact h.ahead j hj
      by_cases hlt : n < s.left.length
      · have hput : s.put e n = { s with
            left := s.left.drop n
            sent := Function.update s.sent e.conn (s.sent e.conn ++ s.left.take n) } := by
          unfold Feed.put
          rw [hsent]
          exact if_pos hlt
        have hrest : s.left.drop n ≠ [] := by
          intro hnil
          have hlen := congrArg List.length hnil
          rw [List.length_drop, List.length_nil] at hlen
          omega
        have hwhole : (t ++ s.left.take n) ++ s.left.drop n = textFrame ev := by
          rw [List.append_assoc, List.take_append_drop, ht]
        rw [hput]
        refine ⟨h.base, .sending past ev k hm
          ⟨hgoing.events, hgoing.frame, fun a ha => ?_, fun a ha => ?_⟩ hrest
          fun a ha => ⟨_, hwhole, ?_⟩, hsilent, fun j => ?_⟩
        · exact hother _ (hbefore a ha) _ _ (hgoing.before a ha)
        · exact hother _ (hafter a ha) _ _ (hgoing.after a ha)
        · rw [hk] at ha
          obtain rfl := Option.some.inj ha
          exact hself
        · by_cases hj : j = e.conn
          · subst hj
            refine ⟨_, _, hself,
              Or.inr ⟨ev, ?_, ⟨_, hwhole⟩, fun heq => ?_, Or.inl ⟨k, e, hm, hk, rfl⟩⟩⟩
            · show s.events[past.length]? = some ev
              rw [hgoing.events, List.getElem?_concat_length]
            · rw [← heq] at hwhole
              exact hrest (List.append_right_eq_self.mp hwhole)
          · exact h.cut_mono _ (List.prefix_refl _) (hother j hj) (List.prefix_refl _) Or.inl
      · have hstep : s.base.publishStep true = { s.base with mutex := .publish (k + 1) } := by
          rw [Clients.publishStep, hm]
          dsimp only
          rw [hk]
          rfl
        have hput : s.put e n = { s with
            base := { s.base with mutex := .publish (k + 1) }
            left := s.frame
            sent := Function.update s.sent e.conn (s.sent e.conn ++ s.left.take n) } := by
          unfold Feed.put
          rw [hsent, hstep]
          exact if_neg hlt
        have hbase := h.base.publishStep true
        rw [hstep] at hbase
        have hdone : Got s.events (s.joined e.conn)
            (Function.update s.sent e.conn (s.sent e.conn ++ s.left.take n) e.conn)
            s.events.length [] := by
          have hall := hself
          rw [List.take_of_length_le (Nat.le_of_not_lt hlt), ht, hgoing.events] at hall
          rw [List.take_of_length_le (Nat.le_of_not_lt hlt), hgoing.events]
          exact hall.whole
        have hnext : ∀ a ∈ s.base.clients.drop (k + 1), Got s.events (s.joined a.conn)
            (Function.update s.sent e.conn (s.sent e.conn ++ s.left.take n) a.conn) past.length [] :=
          fun a ha => hother _ (hafter a ha) _ _ (hgoing.after a ha)
        rw [hput]
        refine ⟨hbase, .sending past ev (k + 1) rfl
          ⟨hgoing.events, hgoing.frame, fun a ha => ?_, fun a ha => hnext a ?_⟩ ?_
          fun a ha => ⟨[], hgoing.frame, hnext a ?_⟩, hsilent, fun j => ?_⟩
        · have ha' : a ∈ s.base.clients.take (k + 1) := ha
          rw [List.take_add_one, hk, List.mem_append] at ha'
          rcases ha' with ha' | ha'
          · exact hother _ (hbefore a ha') _ _ (hgoing.before a ha')
          · obtain rfl := List.mem_singleton.mp ha'
            exact hdone
        · have ha' : a ∈ s.base.clients.drop (k + 1 + 1) := ha
          rw [← List.drop_drop] at ha'
          exact List.mem_of_mem_drop ha'
        · show s.frame ≠ []
          rw [hgoing.frame]
          exact textFrame_ne_nil ev
        · rw [List.mem_iff_getElem?]
          exact ⟨0, by rw [List.getElem?_drop]; exact ha⟩
        · by_cases hj : j = e.conn
          · subst hj
            exact ⟨_, _, hdone, Or.inl rfl⟩
          · refine h.cut_mono _ (List.prefix_refl _) (hother j hj) (List.prefix_refl _) ?_
            rintro ⟨k', e', hm'', hk', rfl⟩
            obtain rfl := Holder.publish.inj (hm.symm.trans hm'')
            rw [hk] at hk'
            exact absurd (congrArg Listed.conn (Option.some.inj hk')).symm hj

theorem Broadcasts.step (h : s.Broadcasts) (t : FeedTurn P) : (s.step t).Broadcasts := by
  cases t with
  | accept fd => exact h.accept fd
  | handler i ok => exact h.handler ok
  | publish ev n =>
      rw [Feed.step, Feed.publish]
      cases hm : s.base.mutex with
      | nobody => exact h.enter hm ev
      | handler i k => exact h
      | dropping k => exact h.skip (Or.inr ⟨k, hm⟩)
      | publish k =>
          dsimp only
          cases hk : s.base.clients[k]? with
          | none => exact h.skip (Or.inl ⟨k, hm⟩)
          | some e =>
              dsimp only
              split
              · exact h.skip (Or.inl ⟨k, hm⟩)
              · exact h.put hm hk

end

theorem run_broadcasts (turns : List (FeedTurn P)) : (run turns).Broadcasts := by
  have hstep : ∀ (s : Feed P) (t : FeedTurn P), s.Broadcasts → (s.step t).Broadcasts :=
    fun _ t hs => hs.step t
  exact foldl_keeps hstep turns {} broadcasts_start

/-- **Every WebSocket client gets the events from the first one after it joined, in order and
without a gap.** In every interleaving of accepts, handlers and `publish` calls, however the sends
cut and fail and the operating system gives numbers again, the `publish` calls have put on a
connection the frames of a run of events that begins where it joined; a part of one more frame
follows only while a call is sending it, or as the last thing when the call has dropped the client.
When no call is in progress a listed client has all of them. -/
theorem broadcast_in_order (turns : List (FeedTurn P)) :
    (∀ i, ∃ m t, (run turns).Has i m t ∧ (t = [] ∨ (run turns).Part i m t)) ∧
    ((run turns).base.mutex = .nobody → ∀ e ∈ (run turns).base.clients,
      (run turns).sent e.conn
        = ((run turns).events.drop ((run turns).joined e.conn)).flatMap textFrame) := by
  have h := run_broadcasts turns
  refine ⟨h.cut, fun hm e he => ?_⟩
  cases h.round with
  | idle _ hall =>
      have hbytes := (hall e he).bytes
      rwa [List.take_length, List.append_nil] at hbytes
  | sending _ _ _ hm' => cases hm.symm.trans hm'
  | dropping _ _ _ hm' => cases hm.symm.trans hm'

end Feed

end Mawmaw.Pub
