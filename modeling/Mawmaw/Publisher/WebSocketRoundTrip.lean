import Mathlib.Data.List.Induction
import Mawmaw.Publisher.WebSocketCalls

/-!
# Frames sent and read back

* `recvFrame_encode` : what the handler has of a client's frame, and what it leaves;
* `sent_frame_read_back` : a frame of `ws_send_frame` is read back by the header and payload logic
  of `ws_handle_incoming_frame`;
* `serveCalls_frames`, `loop_frame_aligned` : the client loop takes the frames one at a time, answers
  the pings and stops at the first close.
-/

namespace Mawmaw.Pub
open Mawmaw.Lib

section
variable {k : Kernel} (hk : k.Steady)
include hk

theorem recvFrame_encode (accepts : Nat → Bool) (eof : Bool) (f : ClientFrame) (rest : List UInt8)
    (r : Nat) (hfit : accepts f.payload.length) :
    ∃ c, recvFrame k eof accepts ⟨f.encode ++ rest, r⟩ = .ok (f.header, f.payload) ⟨rest, c⟩ := by
  have hheader := recvHeader_refines hk eof ⟨f.encode ++ rest, r⟩
  rw [show (⟨f.encode ++ rest, r⟩ : Inbound).input = f.encode ++ rest from rfl,
    readHeader_encode] at hheader
  obtain ⟨c, hc⟩ := hheader.of_ok
  have hpayload := recvExact_refines hk eof ⟨f.body ++ rest, c⟩ f.header.len.toNat
  have hlen : f.body.length = f.header.len.toNat := by rw [f.header_len, f.length_body]
  rw [show (⟨f.body ++ rest, c⟩ : Inbound).input = f.body ++ rest from rfl,
    readExact_append hlen] at hpayload
  obtain ⟨d, hd⟩ := hpayload.of_ok
  have hmade : accepts f.header.len.toNat := by rwa [f.header_len]
  refine ⟨d, ?_⟩
  unfold recvFrame
  rw [hc, RecvResult.andThen, if_pos hmade, hd, RecvResult.andThen, f.unmask_body]

theorem wsSendFrame_steady (accepts : Nat → Bool) (t : Outbound) (opcode : UInt8)
    (payload : List UInt8) (hfit : accepts (wsFrame opcode payload).length) :
    ∃ c, wsSendFrame k accepts t opcode payload
      = some (true, ⟨t.output ++ wsFrame opcode payload, c⟩) := by
  obtain ⟨c, hc⟩ := sendAll_steady hk t (wsFrame opcode payload)
  refine ⟨c, ?_⟩
  rw [wsSendFrame, if_pos hfit, hc]

end

/-- Every call moves one byte. -/
def byteByByte : Kernel := ⟨fun _ => 1, fun _ => 1⟩

theorem byteByByte_steady : byteByByte.Steady := ⟨fun _ => Nat.one_pos, fun _ => Nat.one_pos⟩

/-! ## Round trip -/

/-- The bytes of a frame sent with one kernel's splits are read with another's. -/
theorem sent_frame_read_back {k k' : Kernel} (hk : k.Steady) (hk' : k'.Steady) {opcode : UInt8}
    (hop : opcode < 16) {payload : List UInt8} (hlen : payload.length < 2 ^ 63)
    (following : List UInt8) (eof : Bool) :
    ∃ sent h received,
      wsSendFrame k (fun _ => true) {} opcode payload = some (true, sent) ∧
        recvFrame k' eof (fun _ => true) ⟨sent.output ++ following, 0⟩
          = .ok (h, payload) received ∧
        h.opcode = opcode ∧ h.key = none ∧ h.len.toNat = payload.length ∧
        received.input = following := by
  obtain ⟨c, hsend⟩ := wsSendFrame_steady hk (fun _ => true) {} opcode payload rfl
  obtain ⟨d, hread⟩ := recvFrame_encode hk' (fun _ => true) eof (serverFrame opcode payload hlen)
    following 0 rfl
  refine ⟨_, _, ⟨following, d⟩, hsend, ?_, serverFrame_opcode hlen hop, rfl,
    (serverFrame opcode payload hlen).header_len, rfl⟩
  rw [List.nil_append, wsFrame_eq_encode hlen]
  exact hread

/-- A pong of two bytes. -/
theorem sent_frame_read_back_pong :
    ∃ sent h received,
      wsSendFrame byteByByte (fun _ => true) {} 0xA [7, 8] = some (true, sent) ∧
        recvFrame byteByByte false (fun _ => true) ⟨sent.output ++ [0x81], 0⟩
          = .ok (h, [7, 8]) received ∧
        h.opcode = 0xA ∧ h.key = none ∧ h.len.toNat = [7, 8].length ∧
        received.input = [0x81] :=
  sent_frame_read_back byteByByte_steady byteByByte_steady (by decide) (by decide) [0x81] false

/-! ## The client loop -/

/-- The bytes of the frames. -/
def wire (fs : List ClientFrame) : List UInt8 := fs.flatMap ClientFrame.encode

/-- What is sent for a frame that is not a close. -/
def ClientFrame.pong (f : ClientFrame) : List UInt8 :=
  if f.opcode = 0x9 then wsFrame 0xA f.payload else []

theorem wire_nil : wire [] = [] := rfl

theorem wire_cons (f : ClientFrame) (fs : List ClientFrame) : wire (f :: fs) = f.encode ++ wire fs :=
  List.flatMap_cons

theorem wire_append (fs gs : List ClientFrame) : wire (fs ++ gs) = wire fs ++ wire gs :=
  List.flatMap_append

section
variable {k : Kernel} (hk : k.Steady)
include hk

/-- A round on a frame that is not a close. -/
theorem handleCalls_open (eof : Bool) {f : ClientFrame} (hop : f.opcode ≠ 0x8)
    (rest : List UInt8) (r : Nat) (t : Outbound) :
    ∃ c d, handleCalls k eof (fun _ => true) ⟨f.encode ++ rest, r⟩ t
      = .returned true ⟨rest, c⟩ ⟨t.output ++ f.pong, d⟩ := by
  obtain ⟨c, hc⟩ := recvFrame_encode hk (fun _ => true) eof f rest r rfl
  have hheader : f.header.opcode = f.opcode := rfl
  unfold handleCalls answerCalls ClientFrame.pong
  simp only [hc, hheader, if_neg hop]
  by_cases hping : f.opcode = 0x9
  · obtain ⟨d, hd⟩ := wsSendFrame_steady hk (fun _ => true) t 0xA f.payload rfl
    refine ⟨c, d, ?_⟩
    simp only [if_pos hping, hd]
  · refine ⟨c, t.sends, ?_⟩
    simp only [if_neg hping, List.append_nil]

/-- A round on a close. -/
theorem handleCalls_close (eof : Bool) {f : ClientFrame} (hop : f.opcode = 0x8)
    (rest : List UInt8) (r : Nat) (t : Outbound) :
    ∃ c d, handleCalls k eof (fun _ => true) ⟨f.encode ++ rest, r⟩ t
      = .returned false ⟨rest, c⟩ ⟨t.output ++ wsFrame 0x8 f.payload, d⟩ := by
  obtain ⟨c, hc⟩ := recvFrame_encode hk (fun _ => true) eof f rest r rfl
  obtain ⟨d, hd⟩ := wsSendFrame_steady hk (fun _ => true) t 0x8 f.payload rfl
  have hheader : f.header.opcode = 0x8 := hop
  refine ⟨c, d, ?_⟩
  unfold handleCalls answerCalls
  simp only [hc, hheader, if_pos, hd]

/-- A round for each frame, as long as none is a close. -/
theorem serveCalls_frames (eof : Bool) (fs : List ClientFrame) (hopen : ∀ f ∈ fs, f.opcode ≠ 0x8)
    (rest : List UInt8) :
    ∃ c d, serveCalls k eof (fun _ => true) (fun _ => true) ⟨wire fs ++ rest, 0⟩ {} fs.length
      = .serving ⟨rest, c⟩ ⟨fs.flatMap ClientFrame.pong, d⟩ := by
  induction fs using List.reverseRecOn generalizing rest with
  | nil => exact ⟨0, 0, rfl⟩
  | append_singleton fs f ih =>
      have hfs : ∀ g ∈ fs, g.opcode ≠ 0x8 := fun g hg => hopen g (List.mem_append_left _ hg)
      have hf : f.opcode ≠ 0x8 := hopen f (List.mem_append_right _ (List.mem_singleton_self f))
      obtain ⟨c, d, hrun⟩ := ih hfs (f.encode ++ rest)
      obtain ⟨c', d', hround⟩ :=
        handleCalls_open hk eof hf rest c ⟨fs.flatMap ClientFrame.pong, d⟩
      have hwire : wire (fs ++ [f]) ++ rest = wire fs ++ (f.encode ++ rest) := by
        rw [wire_append, List.append_assoc, wire_cons, wire_nil, List.append_nil]
      refine ⟨c', d', ?_⟩
      rw [hwire, List.length_append, List.length_singleton, serveCalls, hrun, List.flatMap_append,
        List.flatMap_singleton]
      simp only [loopStep, if_pos, hround]

omit hk in
/-- A handler that has left takes no further step. -/
theorem serveCalls_left {eof : Bool} {accepts running} {s t s' t' n}
    (h : serveCalls k eof accepts running s t n = .left s' t') {m : Nat} (hm : n ≤ m) :
    serveCalls k eof accepts running s t m = .left s' t' := by
  induction m, hm using Nat.le_induction with
  | base => exact h
  | succ m hm ih =>
      rw [serveCalls, ih]
      rfl

/-- Before the first close every frame takes one round, and the pongs of the pings are all that is
sent; at the first close its payload is sent back, and no byte after it is ever taken. -/
theorem loop_frame_aligned (eof : Bool) (fs : List ClientFrame) (rest : List UInt8) :
    (∀ before after, fs = before ++ after → (∀ f ∈ before, f.opcode ≠ 0x8) →
      ∃ c d, serveCalls k eof (fun _ => true) (fun _ => true) ⟨wire fs ++ rest, 0⟩ {} before.length
        = .serving ⟨wire after ++ rest, c⟩ ⟨before.flatMap ClientFrame.pong, d⟩) ∧
    ∀ before f after, fs = before ++ f :: after → (∀ g ∈ before, g.opcode ≠ 0x8) →
      f.opcode = 0x8 → ∃ c d, ∀ n > before.length,
        serveCalls k eof (fun _ => true) (fun _ => true) ⟨wire fs ++ rest, 0⟩ {} n
          = .left ⟨wire after ++ rest, c⟩
            ⟨before.flatMap ClientFrame.pong ++ wsFrame 0x8 f.payload, d⟩ := by
  constructor
  · rintro before after rfl hopen
    rw [wire_append, List.append_assoc]
    exact serveCalls_frames hk eof before hopen (wire after ++ rest)
  · rintro before f after rfl hopen hclose
    obtain ⟨c, d, hrun⟩ := serveCalls_frames hk eof before hopen (f.encode ++ (wire after ++ rest))
    obtain ⟨c', d', hround⟩ := handleCalls_close hk eof hclose (wire after ++ rest) c
      ⟨before.flatMap ClientFrame.pong, d⟩
    have hwire : wire (before ++ f :: after) ++ rest
        = wire before ++ (f.encode ++ (wire after ++ rest)) := by
      rw [wire_append, List.append_assoc, wire_cons, List.append_assoc]
    have hleft : serveCalls k eof (fun _ => true) (fun _ => true)
        ⟨wire (before ++ f :: after) ++ rest, 0⟩ {} (before.length + 1)
          = .left ⟨wire after ++ rest, c'⟩
            ⟨before.flatMap ClientFrame.pong ++ wsFrame 0x8 f.payload, d'⟩ := by
      rw [hwire, serveCalls, hrun]
      simp only [loopStep, if_pos, hround]
    exact ⟨c', d', fun n hn => serveCalls_left hleft hn⟩

end

/-- A masked ping. -/
def ping : ClientFrame := ⟨0x89, some #v[1, 2, 3, 4], .short, [7, 8], by decide⟩

/-- A close whose length takes more bytes than it needs. -/
def longClose : ClientFrame := ⟨0x88, none, .long, [3, 232], by decide⟩

theorem loop_frame_aligned_ping : ∃ c d, ∀ n > 1,
    serveCalls byteByByte false (fun _ => true) (fun _ => true)
      ⟨wire [ping, longClose, ping] ++ [0x81], 0⟩ {} n
        = .left ⟨wire [ping] ++ [0x81], c⟩
          ⟨[ping].flatMap ClientFrame.pong ++ wsFrame 0x8 [3, 232], d⟩ :=
  (loop_frame_aligned byteByByte_steady false [ping, longClose, ping] [0x81]).2 [ping] longClose
    [ping] rfl (by decide) (by decide)

end Mawmaw.Pub
