import Mathlib.Logic.Function.Basic
import Mawmaw.Lib.Schedule
import Mawmaw.Lib.SharedStream
import Mawmaw.Publisher.WebSocketFrames

/-!
# The bytes sent to one client

One WebSocket connection after its handshake. Any number of `publish` calls send the text of their
events to it, one call at a time, as they hold `clients_mu_`; the connection's own handler answers
the client's frames and takes the mutex only when it leaves. Each `::send` accepts as many bytes as
it likes, or fails.

* `WireTurn`, `Connection.step` : a step of a `publish` call or of the handler;
* `Connection.sends` : the bytes a step puts on the wire;
* `StartsAlone` : no frame is started while another is partly sent;
* `frames_whole_iff` : the bytes sent are whole frames as long as every step meets it.
-/

namespace Mawmaw.Pub
open Mawmaw.Lib Mawmaw.Core

variable {P : Nat} {ι : Type}

/-- A call of `ws_send_frame` on the connection: of a `publish` call, or of the handler, for the
`k`-th frame of the client. -/
inductive SendCall (ι : Type)
  | publish (i : ι)
  | reply (k : Nat)
  deriving DecidableEq

/-- `locked`: the mutex is held, and the connection's turn has not come; `passed`: its turn is
over. -/
inductive PublishPhase
  | idle
  | locked
  | sending
  | passed
  | done
  deriving DecidableEq, Repr

/-- `receiving k`: the client's `k`-th frame is awaited. -/
inductive HandlerPhase
  | receiving (k : Nat)
  | replying (k : Nat)
  | leaving
  | gone
  deriving DecidableEq, Repr

/-- `listed`: the descriptor is in `clients_`; `mtx` is the `publish` call that holds the mutex. -/
structure Connection (ι : Type) where
  isOpen : Bool := true
  listed : Bool := true
  mtx : Option ι := none
  phase : ι → PublishPhase := fun _ => .idle
  handler : HandlerPhase := .receiving 0
  stream : SharedStream (SendCall ι) UInt8 := {}

/-- `n`: the number of bytes `::send` accepts, if the step is one; none, if it fails. `leave`: the
read fails, or the endpoint is not running. -/
inductive WireTurn (ι : Type)
  | publish (i : ι) (n : Nat)
  | handler (n : Nat)
  | leave

/-- The call that puts bytes on the wire at a step, and how many. -/
def Connection.sends (s : Connection ι) : WireTurn ι → Option (SendCall ι × Nat)
  | .publish i n => if s.phase i = .sending ∧ s.isOpen ∧ 0 < n then some (.publish i, n) else none
  | .handler n =>
    match s.handler with
    | .replying k => if s.isOpen ∧ 0 < n then some (.reply k, n) else none
    | _ => none
  | .leave => none

section
variable (ev : ι → Event P) (incoming : Nat → UInt8 × List UInt8)

/-- The frame of a call. -/
def frameOf : SendCall ι → List UInt8
  | .publish i => wsFrame 0x1 (toJson (ev i))
  | .reply k => (replyFrame (incoming k).1 (incoming k).2).getD []

namespace Connection
variable [DecidableEq ι]

/-- The handler after its answer to the `k`-th frame, sent or not. -/
def answered (k : Nat) : HandlerPhase :=
  if (incoming k).1 = 0x8 then .leaving else .receiving (k + 1)

def setPhase (s : Connection ι) (i : ι) (x : PublishPhase) : Connection ι :=
  { s with phase := Function.update s.phase i x }

/-- The call puts bytes on the wire. -/
def put (s : Connection ι) (c : SendCall ι) (n : Nat) : Connection ι :=
  { s with stream := s.stream.send (frameOf ev incoming) c n }

/-- The call has sent its frame. -/
def sentAll (s : Connection ι) (c : SendCall ι) : Bool :=
  s.stream.sent c == (frameOf ev incoming c).length

def publishStep (s : Connection ι) (i : ι) (n : Nat) : Connection ι :=
  match s.phase i with
  | .idle => if s.mtx = none then { s with mtx := some i }.setPhase i .locked else s
  | .locked => s.setPhase i (if s.listed then .sending else .passed)
  | .sending =>
    if s.isOpen ∧ 0 < n then
      let s := s.put ev incoming (.publish i) n
      s.setPhase i (if s.sentAll ev incoming (.publish i) then .passed else .sending)
    else { s with isOpen := false, listed := false }.setPhase i .passed
  | .passed => { s with mtx := none }.setPhase i .done
  | .done => s

def handlerStep (s : Connection ι) (n : Nat) : Connection ι :=
  match s.handler with
  | .receiving k =>
    { s with
      handler := if (replyFrame (incoming k).1 (incoming k).2).isSome then .replying k
        else .receiving (k + 1) }
  | .replying k =>
    if s.isOpen ∧ 0 < n then
      let s := s.put ev incoming (.reply k) n
      { s with
        handler := if s.sentAll ev incoming (.reply k) then answered incoming k else .replying k }
    else { s with handler := answered incoming k }
  | .leaving =>
    if s.mtx = none then
      { s with isOpen := s.isOpen && !s.listed, listed := false, handler := .gone }
    else s
  | .gone => s

def step (s : Connection ι) : WireTurn ι → Connection ι
  | .publish i n => s.publishStep ev incoming i n
  | .handler n => s.handlerStep ev incoming n
  | .leave =>
    match s.handler with
    | .receiving _ => { s with handler := .leaving }
    | _ => s

def run (s : Connection ι) (turns : List (WireTurn ι)) : Connection ι :=
  turns.foldl (step ev incoming) s

/-- The bytes sent. -/
def bytes (s : Connection ι) : List UInt8 := s.stream.wire.map (·.2)

/-- A call that puts its first bytes on the wire finds no frame of another call partly sent, be it
under way or given up. -/
def StartsAlone (s : Connection ι) (t : WireTurn ι) : Prop :=
  ∀ c n, s.sends t = some (c, n) → s.stream.sent c = 0 →
    ∀ c', ¬ SharedStream.Partial (frameOf ev incoming) s.stream c'

end Connection
end

namespace Connection
variable {ev : ι → Event P} {incoming : Nat → UInt8 × List UInt8}
  {s : Connection ι}

theorem frame_reply_pos {k : Nat} (h : (replyFrame (incoming k).1 (incoming k).2).isSome) :
    0 < (frameOf ev incoming (.reply k)).length := by
  obtain ⟨frame, hframe⟩ := Option.isSome_iff_exists.mp h
  rw [frameOf, hframe, Option.getD_some]
  unfold replyFrame at hframe
  split at hframe
  · obtain rfl := Option.some.inj hframe
    exact List.length_pos_of_ne_nil (wsFrame_ne_nil _ _)
  · split at hframe
    · obtain rfl := Option.some.inj hframe
      exact List.length_pos_of_ne_nil (wsFrame_ne_nil _ _)
    · cases hframe

/-- No call's frame starts as the bytes do. -/
theorem not_whole {bytes : List UInt8} (hlen : 2 ≤ bytes.length)
    (hframe : ∀ c, 2 ≤ (frameOf ev incoming c).length)
    (hne : ∀ c, (frameOf ev incoming c).take 2 ≠ bytes.take 2) :
    ¬ ∃ done : List (SendCall ι), done.Nodup ∧ ∃ tail,
      bytes = done.flatMap (frameOf ev incoming) ++ tail ∧
        (tail = [] ∨ ∃ c, c ∉ done ∧ tail <+: frameOf ev incoming c) := by
  rintro ⟨done, -, tail, hbytes, htail⟩
  cases done with
  | nil =>
      rw [List.flatMap_nil, List.nil_append] at hbytes
      subst hbytes
      rcases htail with rfl | ⟨c, -, l, hl⟩
      · cases hlen
      · refine hne c ?_
        rw [← hl, List.take_append_of_le_length hlen]
  | cons c done =>
      refine hne c ?_
      rw [hbytes, List.flatMap_cons, List.append_assoc,
        List.take_append_of_le_length (hframe c)]

variable [DecidableEq ι]

/-- A step puts on the wire what `sends` says. -/
theorem step_stream (s : Connection ι) (t : WireTurn ι) :
    (s.step ev incoming t).stream = match s.sends t with
      | some (c, n) => s.stream.send (frameOf ev incoming) c n
      | none => s.stream := by
  cases t with
  | publish i n =>
      rw [step, publishStep, sends]
      cases hph : s.phase i with
      | idle =>
          dsimp only
          split <;> rfl
      | sending =>
          by_cases hsend : s.isOpen = true ∧ 0 < n
          · simp only [hsend, and_self, if_true]
            rfl
          · simp only [if_neg hsend, true_and]
            rfl
      | locked | passed | done => rfl
  | handler n =>
      rw [step, handlerStep, sends]
      cases hh : s.handler with
      | replying k =>
          dsimp only
          split <;> rfl
      | leaving =>
          dsimp only
          split <;> rfl
      | receiving k | gone => rfl
  | leave =>
      rw [step, sends]
      split <;> rfl

/-- What the phases say of the bytes sent. -/
structure Inv (ev : ι → Event P) (incoming : Nat → UInt8 × List UInt8) (s : Connection ι) :
    Prop where
  stream : SharedStream.Inv (frameOf ev incoming) s.stream
  fresh : ∀ i, s.phase i = .idle ∨ s.phase i = .locked → s.stream.sent (.publish i) = 0
  sending : ∀ i, s.phase i = .sending →
    s.stream.sent (.publish i) < (frameOf ev incoming (.publish i)).length
  receiving : ∀ k, s.handler = .receiving k → ∀ j, k ≤ j → s.stream.sent (.reply j) = 0
  replying : ∀ k, s.handler = .replying k →
    s.stream.sent (.reply k) < (frameOf ev incoming (.reply k)).length ∧
      ∀ j, k < j → s.stream.sent (.reply j) = 0

theorem inv_start (ev : ι → Event P) (incoming : Nat → UInt8 × List UInt8) :
    Inv ev incoming ({} : Connection ι) where
  stream := SharedStream.inv_new _
  fresh _ _ := rfl
  sending _ h := by cases h
  receiving _ _ _ _ := rfl
  replying _ h := by cases h

theorem sent_put_ne (s : Connection ι) {c c' : SendCall ι} (h : c' ≠ c) (n : Nat) :
    (s.put ev incoming c n).stream.sent c' = s.stream.sent c' :=
  Function.update_of_ne h ..

theorem Inv.setPhase (h : Inv ev incoming s) {i : ι} {x : PublishPhase}
    (hfresh : x = .idle ∨ x = .locked → s.stream.sent (.publish i) = 0)
    (hsending : x = .sending →
      s.stream.sent (.publish i) < (frameOf ev incoming (.publish i)).length) :
    Inv ev incoming (s.setPhase i x) where
  stream := h.stream
  fresh :=
    (Function.forall_update_iff s.phase fun j y =>
      y = .idle ∨ y = .locked → s.stream.sent (.publish j) = 0).2 ⟨hfresh, fun j _ => h.fresh j⟩
  sending :=
    (Function.forall_update_iff s.phase fun j y => y = .sending →
      s.stream.sent (.publish j) < (frameOf ev incoming (.publish j)).length).2
        ⟨hsending, fun j _ => h.sending j⟩
  receiving := h.receiving
  replying := h.replying

/-- One `::send` of a `publish` call. -/
theorem Inv.publishSend (h : Inv ev incoming s) (i : ι) (n : Nat) {x : PublishPhase}
    (hx : x = .passed ∨ (x = .sending ∧
      (s.put ev incoming (.publish i) n).sentAll ev incoming (.publish i) = false)) :
    Inv ev incoming ((s.put ev incoming (.publish i) n).setPhase i x) := by
  have hstream := h.stream.send (.publish i) n
  have hreply : ∀ j, (s.put ev incoming (.publish i) n).stream.sent (.reply j)
      = s.stream.sent (.reply j) := fun j => sent_put_ne s (by simp) n
  have hother : ∀ j, j ≠ i → (s.put ev incoming (.publish i) n).stream.sent (.publish j)
      = s.stream.sent (.publish j) := fun j hji => sent_put_ne s (by simpa using hji) n
  refine ⟨hstream, ?_, ?_, fun k hk j hj => ?_, fun k hk => ?_⟩
  · refine (Function.forall_update_iff s.phase fun j y => y = .idle ∨ y = .locked →
      (s.put ev incoming (.publish i) n).stream.sent (.publish j) = 0).2 ⟨fun hnow => ?_, ?_⟩
    · rcases hx with rfl | ⟨rfl, -⟩ <;> simp at hnow
    · exact fun j hji hj => (hother j hji).trans (h.fresh j hj)
  · refine (Function.forall_update_iff s.phase fun j y => y = .sending →
      (s.put ev incoming (.publish i) n).stream.sent (.publish j)
        < (frameOf ev incoming (.publish j)).length).2 ⟨fun hnow => ?_, ?_⟩
    · rcases hx with rfl | ⟨-, hleft⟩
      · cases hnow
      · have hne : (s.put ev incoming (.publish i) n).stream.sent (.publish i)
            ≠ (frameOf ev incoming (.publish i)).length := by simpa [sentAll] using hleft
        exact Nat.lt_of_le_of_ne (hstream.sent_le _) hne
    · exact fun j hji hj => lt_of_eq_of_lt (hother j hji) (h.sending j hj)
  · exact (hreply j).trans (h.receiving k hk j hj)
  · refine ⟨lt_of_eq_of_lt (hreply k) (h.replying k hk).1, fun j hj => ?_⟩
    exact (hreply j).trans ((h.replying k hk).2 j hj)

theorem Inv.publishStep (h : Inv ev incoming s) (i : ι) (n : Nat) :
    Inv ev incoming (s.publishStep ev incoming i n) := by
  unfold Connection.publishStep
  cases hph : s.phase i with
  | idle =>
      have hzero := h.fresh i (Or.inl hph)
      dsimp only
      split
      · have hlocked : Inv ev incoming { s with mtx := some i } :=
          ⟨h.stream, h.fresh, h.sending, h.receiving, h.replying⟩
        exact hlocked.setPhase (fun _ => hzero) (by simp)
      · exact h
  | locked =>
      have hzero := h.fresh i (Or.inr hph)
      refine h.setPhase (fun _ => hzero) fun _ => ?_
      rw [hzero]
      exact List.length_pos_of_ne_nil (wsFrame_ne_nil _ _)
  | sending =>
      dsimp only
      split
      · refine h.publishSend i n ?_
        cases hall : (s.put ev incoming (.publish i) n).sentAll ev incoming (.publish i) with
        | true => exact Or.inl rfl
        | false => exact Or.inr ⟨rfl, rfl⟩
      · have hclosed : Inv ev incoming { s with isOpen := false, listed := false } :=
          ⟨h.stream, h.fresh, h.sending, h.receiving, h.replying⟩
        exact hclosed.setPhase (by simp) (by simp)
  | passed =>
      have hunlocked : Inv ev incoming { s with mtx := none } :=
        ⟨h.stream, h.fresh, h.sending, h.receiving, h.replying⟩
      exact hunlocked.setPhase (by simp) (by simp)
  | done => exact h

/-- What the handler goes on with after its answer, the sent part of which is left. -/
theorem Inv.answered (h : Inv ev incoming s) {k : Nat}
    (hlater : ∀ j, k < j → s.stream.sent (.reply j) = 0) :
    Inv ev incoming { s with handler := answered incoming k } where
  stream := h.stream
  fresh := h.fresh
  sending := h.sending
  receiving k' hk' j hj := by
    rw [Connection.answered] at hk'
    split at hk'
    · cases hk'
    · obtain rfl := HandlerPhase.receiving.inj hk'
      exact hlater j hj
  replying k' hk' := by
    rw [Connection.answered] at hk'
    split at hk' <;> cases hk'

/-- One `::send` of the handler. -/
theorem Inv.replySend (h : Inv ev incoming s) {k : Nat} (hk : s.handler = .replying k) (n : Nat) :
    Inv ev incoming
      { s.put ev incoming (.reply k) n with
        handler := if (s.put ev incoming (.reply k) n).sentAll ev incoming (.reply k)
          then Connection.answered incoming k else .replying k } := by
  have hstream := h.stream.send (.reply k) n
  have hpublish : ∀ i, (s.put ev incoming (.reply k) n).stream.sent (.publish i)
      = s.stream.sent (.publish i) := fun i => sent_put_ne s (by simp) n
  have hlater : ∀ j, k < j → (s.put ev incoming (.reply k) n).stream.sent (.reply j) = 0 := by
    intro j hj
    rw [sent_put_ne s (by simp; omega)]
    exact (h.replying k hk).2 j hj
  cases hall : (s.put ev incoming (.reply k) n).sentAll ev incoming (.reply k) with
  | true =>
      have hput : Inv ev incoming { s.put ev incoming (.reply k) n with handler := .leaving } :=
        ⟨hstream, fun i hi => (hpublish i).trans (h.fresh i hi),
          fun i hi => lt_of_eq_of_lt (hpublish i) (h.sending i hi), (fun k hk => by cases hk),
          (fun k hk => by cases hk)⟩
      exact hput.answered hlater
  | false =>
      have hne : (s.put ev incoming (.reply k) n).stream.sent (.reply k)
          ≠ (frameOf ev incoming (.reply k)).length := by simpa [sentAll] using hall
      refine ⟨hstream, fun i hi => (hpublish i).trans (h.fresh i hi),
        fun i hi => lt_of_eq_of_lt (hpublish i) (h.sending i hi), (fun k' hk' => by cases hk'),
        fun k' hk' => ?_⟩
      obtain rfl := HandlerPhase.replying.inj hk'
      exact ⟨Nat.lt_of_le_of_ne (hstream.sent_le _) hne, hlater⟩

theorem Inv.handlerStep (h : Inv ev incoming s) (n : Nat) :
    Inv ev incoming (s.handlerStep ev incoming n) := by
  unfold Connection.handlerStep
  cases hh : s.handler with
  | receiving k =>
      have hlater := h.receiving k hh
      refine ⟨h.stream, h.fresh, h.sending, fun k' hk' j hj => ?_, fun k' hk' => ?_⟩
      · dsimp only at hk'
        split at hk'
        · cases hk'
        · obtain rfl := HandlerPhase.receiving.inj hk'
          exact hlater j (by omega)
      · dsimp only at hk'
        split at hk'
        · rename_i hsome
          obtain rfl := HandlerPhase.replying.inj hk'
          refine ⟨?_, fun j hj => hlater j (by omega)⟩
          show s.stream.sent (.reply k) < _
          rw [hlater k (Nat.le_refl k)]
          exact frame_reply_pos hsome
        · cases hk'
  | replying k =>
      obtain ⟨hlt, hlater⟩ := h.replying k hh
      dsimp only
      split
      · exact h.replySend hh n
      · exact h.answered hlater
  | leaving =>
      dsimp only
      split
      · exact ⟨h.stream, h.fresh, h.sending, (fun k hk => by cases hk), (fun k hk => by cases hk)⟩
      · exact h
  | gone => exact h

theorem Inv.step (h : Inv ev incoming s) (t : WireTurn ι) :
    Inv ev incoming (s.step ev incoming t) := by
  cases t with
  | publish i n => exact h.publishStep i n
  | handler n => exact h.handlerStep n
  | leave =>
      rw [Connection.step]
      split
      · exact ⟨h.stream, h.fresh, h.sending, (fun k hk => by cases hk), (fun k hk => by cases hk)⟩
      · exact h

/-- The call of a step has something left to send. -/
theorem Inv.piece (h : Inv ev incoming s) {t : WireTurn ι} {c : SendCall ι} {n : Nat}
    (hsends : s.sends t = some (c, n)) : s.stream.piece (frameOf ev incoming) c n ≠ [] := by
  have hpiece : 0 < n → s.stream.sent c < (frameOf ev incoming c).length →
      s.stream.piece (frameOf ev incoming) c n ≠ [] := by
    intro hn hlt
    rw [← List.length_pos_iff, SharedStream.length_piece]
    omega
  unfold sends at hsends
  split at hsends
  · rename_i i m
    split at hsends
    · rename_i hsend
      obtain ⟨rfl, rfl⟩ := Prod.mk.inj (Option.some.inj hsends)
      exact hpiece hsend.2.2 (h.sending i hsend.1)
    · cases hsends
  · split at hsends
    · rename_i k hk
      split at hsends
      · rename_i hsend
        obtain ⟨rfl, rfl⟩ := Prod.mk.inj (Option.some.inj hsends)
        exact hpiece hsend.2 (h.replying k hk).1
      · cases hsends
    · cases hsends
  · cases hsends

theorem Inv.startsAlone_iff (h : Inv ev incoming s) (hf : Framed (frameOf ev incoming) s.stream.wire)
    (t : WireTurn ι) : s.StartsAlone ev incoming t ↔
      Framed (frameOf ev incoming) (s.step ev incoming t).stream.wire := by
  rw [step_stream]
  cases hsends : s.sends t with
  | none =>
      refine ⟨fun _ => hf, fun _ c n hc => ?_⟩
      rw [hsends] at hc
      cases hc
  | some p =>
      obtain ⟨c, n⟩ := p
      rw [h.stream.framed_send_iff hf (h.piece hsends)]
      refine ⟨fun halone => halone c n hsends, fun halone c' n' hc' => ?_⟩
      rw [hsends] at hc'
      obtain ⟨rfl, rfl⟩ := Prod.mk.inj (Option.some.inj hc')
      exact halone

/-- The bytes sent are whole frames, each of one call, and at most a part of one more, at every
moment of a run, exactly if the run meets `StartsAlone` throughout. -/
theorem frames_whole_iff (ev : ι → Event P) (incoming : Nat → UInt8 × List UInt8)
    (turns : List (WireTurn ι)) :
    (Along (step ev incoming) (StartsAlone ev incoming) {} turns ↔
      ∀ pre, pre <+: turns →
        Framed (frameOf ev incoming) (run ev incoming {} pre).stream.wire) ∧
    (Along (step ev incoming) (StartsAlone ev incoming) {} turns →
      ∀ pre, pre <+: turns → ∃ done : List (SendCall ι), done.Nodup ∧ ∃ tail,
        (run ev incoming {} pre).bytes = done.flatMap (frameOf ev incoming) ++ tail ∧
          (tail = [] ∨ ∃ c, c ∉ done ∧ tail <+: frameOf ev incoming c)) := by
  have hiff := along_iff_prefixes (StartsAlone ev incoming) (Inv ev incoming)
    (fun s => Framed (frameOf ev incoming) s.stream.wire) (fun s t h => h.step t)
    (fun s t h hf => h.startsAlone_iff hf t) turns {} (inv_start ev incoming) (framed_nil _)
  exact ⟨hiff, fun halong pre hpre => (hiff.mp halong pre hpre).untagged⟩

/-! A text frame of which one byte is accepted, and a pong before the rest. -/

def pinged (_ : Nat) : UInt8 × List UInt8 := (0x9, [])

def oneEvent (_ : Fin 1) : Event 8 := {}

def pongWithin : List (WireTurn (Fin 1)) :=
  [.publish 0 0, .publish 0 0, .publish 0 1, .handler 0, .handler 2]

theorem frames_interleaved :
    let s := run oneEvent pinged {} pongWithin
    s.bytes = [0x81, 0x8A, 0x00] ∧
      ¬ ∃ done : List (SendCall (Fin 1)), done.Nodup ∧ ∃ tail,
        s.bytes = done.flatMap (frameOf oneEvent pinged) ++ tail ∧
          (tail = [] ∨ ∃ c, c ∉ done ∧ tail <+: frameOf oneEvent pinged c) := by
  intro s
  have hbytes : s.bytes = [0x81, 0x8A, 0x00] := by decide +kernel
  have htext : ∀ i, (frameOf oneEvent pinged (.publish i)).take 2 = [0x81, 86] := by
    intro i
    show (wsFrame 0x1 (toJson ({} : Event 8))).take 2 = _
    decide +kernel
  have hpong : ∀ k, frameOf oneEvent pinged (.reply k) = [0x8A, 0] := fun k => rfl
  refine ⟨hbytes, not_whole ?_ (fun c => ?_) fun c => ?_⟩
  · rw [hbytes]
    decide
  · cases c with
    | publish i =>
        have htake := congrArg List.length (htext i)
        rw [List.length_take] at htake
        simp only [List.length_cons, List.length_nil] at htake
        omega
    | reply k => rw [hpong k]; decide
  · rw [hbytes]
    cases c with
    | publish i => rw [htext i]; decide
    | reply k => rw [hpong k]; decide

end Connection

end Mawmaw.Pub
