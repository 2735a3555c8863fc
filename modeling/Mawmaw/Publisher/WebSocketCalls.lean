import Mawmaw.Lib.PartialTransfer
import Mawmaw.Publisher.ClientFrames
import Mawmaw.Publisher.WebSocketServe

/-!
# A client's handler, call by call

The functions of `WebSocketFrames` and the loop of `WebSocketServe` with every `::recv` and
`::send`, each of which moves as many bytes as the kernel likes.

* `recvFrame` : the header and the payload of a frame; `wsSendFrame` : a frame put on the wire;
* `serveCalls` : the client loop;
* `recvHeader_refines`, `handleCalls_refines`, `serveCalls_refines` : under a steady kernel the
  splits make no difference to what is read.
-/

namespace Mawmaw.Pub
open Mawmaw.Lib

/-- The most that the `i`-th `::recv` and the `i`-th `::send` of a connection move; a call that
moves nothing has failed. -/
structure Kernel where
  recvSize : Nat → Nat
  sendSize : Nat → Nat

structure Kernel.Steady (k : Kernel) : Prop where
  recv : ∀ i, 0 < k.recvSize i
  send : ∀ i, 0 < k.sendSize i

/-- `input` are the bytes that no call has taken yet. -/
structure Inbound where
  input : List UInt8
  recvs : Nat := 0
  deriving DecidableEq, Repr

/-- `output` are the bytes on the wire. -/
structure Outbound where
  output : List UInt8 := []
  sends : Nat := 0
  deriving DecidableEq, Repr

/-- `ReadResult` with the connection it leaves; `thrown`: a vector is not made. -/
inductive RecvResult (α : Type)
  | ok (a : α) (s : Inbound)
  | failed (s : Inbound)
  | waiting
  | thrown
  deriving DecidableEq, Repr

def RecvResult.andThen {α β : Type} (r : RecvResult α) (next : α → Inbound → RecvResult β) :
    RecvResult β :=
  match r with
  | .ok a s => next a s
  | .failed s => .failed s
  | .waiting => .waiting
  | .thrown => .thrown

/-- What comes of a round. -/
inductive RoundResult
  | returned (ok : Bool) (s : Inbound) (t : Outbound)
  | waiting
  | thrown
  deriving DecidableEq, Repr

inductive LoopState
  | serving (s : Inbound) (t : Outbound)
  | left (s : Inbound) (t : Outbound)
  | waiting
  | thrown
  deriving DecidableEq, Repr

/-! ## The calls -/

section
variable (k : Kernel) (eof : Bool)

/-- Where no byte is left, the read ends if the client has closed, and else blocks. -/
def recvExact (s : Inbound) (n : Nat) : RecvResult (List UInt8) :=
  let t := transfer k.recvSize s.recvs n [] s.input
  let s : Inbound := ⟨t.left, t.calls⟩
  match t.ending with
  | .done => .ok t.got s
  | .dry => if eof then .failed s else .waiting
  | .refused => .failed s

def recvLength (len : UInt8) (s : Inbound) : RecvResult UInt64 :=
  if len = 126 then (recvExact k eof s 2).andThen fun ext s => .ok (bigEndian ext) s
  else if len = 127 then (recvExact k eof s 8).andThen fun ext s => .ok (bigEndian ext) s
  else .ok len.toUInt64 s

def recvKey (masked : Bool) (s : Inbound) : RecvResult (Option (List UInt8)) :=
  if masked then (recvExact k eof s 4).andThen fun key s => .ok (some key) s
  else .ok none s

def recvHeader (s : Inbound) : RecvResult FrameHeader :=
  (recvExact k eof s 2).andThen fun hdr s =>
    let masked := (hdr.getD 1 0 &&& 0x80) != 0
    let opcode := hdr.getD 0 0 &&& 0x0F
    (recvLength k eof (hdr.getD 1 0 &&& 0x7F) s).andThen fun len s =>
      (recvKey k eof masked s).andThen fun key s => .ok ⟨opcode, len, key⟩ s

/-- `ws_handle_incoming_frame` up to its `switch`: the header and the payload without its mask. -/
def recvFrame (accepts : Nat → Bool) (s : Inbound) : RecvResult (FrameHeader × List UInt8) :=
  (recvHeader k eof s).andThen fun h s =>
    if accepts h.len.toNat then
      (recvExact k eof s h.len.toNat).andThen fun payload s => .ok (h, h.unmask payload) s
    else .thrown

/-- The loop of `ws_send_frame` over its buffer. -/
def sendAll (t : Outbound) (frame : List UInt8) : Bool × Outbound :=
  let r := transfer k.sendSize t.sends frame.length [] frame
  (r.ending == .done, ⟨t.output ++ r.got, r.calls⟩)

/-- None, if the buffer is not made. -/
def wsSendFrame (accepts : Nat → Bool) (t : Outbound) (opcode : UInt8) (payload : List UInt8) :
    Option (Bool × Outbound) :=
  let frame := wsFrame opcode payload
  if accepts frame.length then some (sendAll k t frame) else none

/-- Whether an answer is sent does not matter. -/
def answerCalls (accepts : Nat → Bool) (opcode : UInt8) (payload : List UInt8) (s : Inbound)
    (t : Outbound) : RoundResult :=
  if opcode = 0x8 then
    match wsSendFrame k accepts t 0x8 payload with
    | none => .thrown
    | some (_, t) => .returned false s t
  else if opcode = 0x9 then
    match wsSendFrame k accepts t 0xA payload with
    | none => .thrown
    | some (_, t) => .returned true s t
  else .returned true s t

/-- One call of `ws_handle_incoming_frame`. -/
def handleCalls (accepts : Nat → Bool) (s : Inbound) (t : Outbound) : RoundResult :=
  match recvFrame k eof accepts s with
  | .ok (h, payload) s => answerCalls k accepts h.opcode payload s t
  | .failed s => .returned false s t
  | .waiting => .waiting
  | .thrown => .thrown

/-- `while (running_ && ws_handle_incoming_frame(fd))`, a round of it. -/
def loopStep (accepts : Nat → Bool) (running : Bool) : LoopState → LoopState
  | .serving s t =>
    if running then
      match handleCalls k eof accepts s t with
      | .returned true s t => .serving s t
      | .returned false s t => .left s t
      | .waiting => .waiting
      | .thrown => .thrown
    else .left s t
  | s => s

/-- The handler after some rounds. -/
def serveCalls (accepts : Nat → Bool) (running : Nat → Bool) (s : Inbound) (t : Outbound) :
    Nat → LoopState
  | 0 => .serving s t
  | n + 1 => loopStep k eof accepts (running n) (serveCalls accepts running s t n)

end

/-! ## The splits make no difference -/

/-- The call has read the same as the function of the whole input. -/
inductive RecvResult.Refines {α : Type} : RecvResult α → ReadResult α → Prop
  | ok (a : α) (s : Inbound) : Refines (.ok a s) (.ok a s.input)
  | failed (c : Nat) : Refines (.failed ⟨[], c⟩) .failed
  | waiting : Refines .waiting .waiting

theorem RecvResult.Refines.andThen {α β : Type} {r : RecvResult α} {p : ReadResult α}
    {f : α → Inbound → RecvResult β} {g : α → List UInt8 → ReadResult β} (h : r.Refines p)
    (hnext : ∀ a s, (f a s).Refines (g a s.input)) : (r.andThen f).Refines (p.andThen g) := by
  cases h with
  | ok a s => exact hnext a s
  | failed c => exact .failed c
  | waiting => exact .waiting

/-- What a call has read, from what the function reads. -/
theorem RecvResult.Refines.of_ok {α : Type} {r : RecvResult α} {a : α} {rest : List UInt8}
    (h : r.Refines (.ok a rest)) : ∃ c, r = .ok a ⟨rest, c⟩ := by
  cases h with
  | ok a s => exact ⟨s.recvs, rfl⟩

def RoundResult.toFrameResult : RoundResult → FrameResult
  | .returned ok s _ => .returned ok s.input
  | .waiting => .waiting
  | .thrown => .thrown

def LoopState.toServeState : LoopState → ServeState
  | .serving s _ => .serving s.input
  | .left _ _ => .left
  | .waiting => .waiting
  | .thrown => .thrown

section
variable {k : Kernel} (hk : k.Steady)
include hk

theorem recvExact_refines (eof : Bool) (s : Inbound) (n : Nat) :
    (recvExact k eof s n).Refines (readExact eof s.input n) := by
  by_cases h : n ≤ s.input.length
  · obtain ⟨c, hc⟩ := transfer_done hk.recv s.recvs [] h
    simp only [recvExact, readExact, hc, if_pos h, List.nil_append]
    exact .ok _ ⟨s.input.drop n, c⟩
  · obtain ⟨c, hc⟩ := transfer_dry hk.recv s.recvs [] (Nat.lt_of_not_le h)
    simp only [recvExact, readExact, hc, if_neg h]
    cases eof with
    | true => exact .failed _
    | false => exact .waiting

theorem recvLength_refines (eof : Bool) (len : UInt8) (s : Inbound) :
    (recvLength k eof len s).Refines (readLength eof len s.input) := by
  unfold recvLength readLength
  split
  · exact (recvExact_refines hk eof s 2).andThen fun ext s => .ok _ s
  · split
    · exact (recvExact_refines hk eof s 8).andThen fun ext s => .ok _ s
    · exact .ok _ s

theorem recvKey_refines (eof masked : Bool) (s : Inbound) :
    (recvKey k eof masked s).Refines (readKey eof masked s.input) := by
  unfold recvKey readKey
  split
  · exact (recvExact_refines hk eof s 4).andThen fun key s => .ok _ s
  · exact .ok _ s

theorem recvHeader_refines (eof : Bool) (s : Inbound) :
    (recvHeader k eof s).Refines (readHeader eof s.input) := by
  unfold recvHeader readHeader
  apply (recvExact_refines hk eof s 2).andThen
  intro hdr s
  apply (recvLength_refines hk eof _ s).andThen
  intro len s
  apply (recvKey_refines hk eof _ s).andThen
  intro key s
  exact .ok _ s

theorem sendAll_steady (t : Outbound) (frame : List UInt8) :
    ∃ c, sendAll k t frame = (true, ⟨t.output ++ frame, c⟩) := by
  obtain ⟨c, hc⟩ := transfer_done hk.send t.sends [] (le_refl frame.length)
  refine ⟨c, ?_⟩
  rw [sendAll, hc, List.take_length, List.nil_append]
  rfl

omit hk in
theorem answerCalls_refines (accepts : Nat → Bool) (opcode : UInt8) (payload : List UInt8)
    (s : Inbound) (t : Outbound) :
    (answerCalls k accepts opcode payload s t).toFrameResult
      = answer accepts opcode payload s.input := by
  by_cases h8 : opcode = 0x8
  · subst h8
    by_cases hfit : accepts (wsFrame 0x8 payload).length
    · simp [answerCalls, answer, replyFrame, wsSendFrame, hfit, RoundResult.toFrameResult]
    · simp [answerCalls, answer, replyFrame, wsSendFrame, hfit, RoundResult.toFrameResult]
  · by_cases h9 : opcode = 0x9
    · subst h9
      by_cases hfit : accepts (wsFrame 0xA payload).length
      · simp [answerCalls, answer, replyFrame, wsSendFrame, hfit, RoundResult.toFrameResult]
      · simp [answerCalls, answer, replyFrame, wsSendFrame, hfit, RoundResult.toFrameResult]
    · simp [answerCalls, answer, replyFrame, h8, h9, RoundResult.toFrameResult]

theorem handleCalls_refines (accepts : Nat → Bool) (eof : Bool) (s : Inbound) (t : Outbound) :
    (handleCalls k eof accepts s t).toFrameResult
      = handleIncomingFrame accepts eof s.input := by
  unfold handleCalls recvFrame handleIncomingFrame
  have hheader := recvHeader_refines hk eof s
  generalize recvHeader k eof s = r at hheader ⊢
  generalize readHeader eof s.input = p at hheader ⊢
  cases hheader with
  | failed c => rfl
  | waiting => rfl
  | ok h s =>
      simp only [RecvResult.andThen]
      by_cases hfit : accepts h.len.toNat
      · rw [if_pos hfit, if_pos hfit]
        have hpayload := recvExact_refines hk eof s h.len.toNat
        generalize recvExact k eof s h.len.toNat = r at hpayload ⊢
        generalize readExact eof s.input h.len.toNat = p at hpayload ⊢
        cases hpayload with
        | failed c => rfl
        | waiting => rfl
        | ok payload s => exact answerCalls_refines accepts h.opcode (h.unmask payload) s t
      · rw [if_neg hfit, if_neg hfit]
        rfl

theorem loopStep_refines (accepts : Nat → Bool) (eof go : Bool) (x : LoopState) :
    (loopStep k eof accepts go x).toServeState = serveStep accepts eof go x.toServeState := by
  cases x with
  | left s t => rfl
  | waiting => rfl
  | thrown => rfl
  | serving s t =>
      have h := handleCalls_refines hk accepts eof s t
      cases go with
      | false => rfl
      | true =>
          simp only [loopStep, serveStep, LoopState.toServeState, if_pos, ← h]
          cases handleCalls k eof accepts s t with
          | returned ok s t => cases ok <;> rfl
          | waiting => rfl
          | thrown => rfl

/-- The loop on the calls goes the way of the loop on the whole input. -/
theorem serveCalls_refines (accepts : Nat → Bool) (eof : Bool) (running : Nat → Bool) (s : Inbound)
    (t : Outbound) (n : Nat) : (serveCalls k eof accepts running s t n).toServeState
      = serve accepts eof running s.input n := by
  induction n with
  | zero => rfl
  | succ n ih => rw [serveCalls, serve, loopStep_refines hk, ih]

end

end Mawmaw.Pub
