import Mawmaw.Lib.HttpResponse
import Mawmaw.Publisher.ClientReads
import Mawmaw.Publisher.Handshake
import Mawmaw.Publisher.WebSocketRoundTrip

/-!
# A WebSocket session

The handler of a connection from its start: the request is read one byte a call, the response goes out
in one `::send`, and the client loop follows on the same connection.

* `Session`, `session` : `handshake_and_serve` after some rounds of its loop;
* `readLines_handshakeResponse` : the response as a client reads it; `decode_wsAcceptKey` : its key;
* `session_upgrade` : a request and frames against an answer and frames.
-/

namespace Mawmaw.Pub
open Mawmaw.Lib

/-! ## The code -/

/-- `refused`: there is no key; `broken`: the response is not sent. -/
inductive Session
  | refused
  | broken
  | entered (s : LoopState)
  deriving DecidableEq, Repr

/-- `handshake_and_serve` on what the client sends, `n` rounds into its loop. The response may be cut:
`::send` is called once. -/
def session (k : Kernel) (eof : Bool) (accepts : Nat → Bool) (running : Nat → Bool)
    (input : List UInt8) (n : Nat) : Session :=
  match handshake input with
  | (none, _) => .refused
  | (some response, rest) =>
    if k.sendSize 0 = 0 then .broken
    else .entered (serveCalls k eof accepts running ⟨rest, input.length - rest.length⟩
      ⟨response.take (k.sendSize 0), 1⟩ n)

/-! ## The response -/

/-- The lines of the response. -/
def upgradeLines (accept : Str) : List Str :=
  [lit "HTTP/1.1 101 Switching Protocols", lit "Upgrade: websocket", lit "Connection: Upgrade",
    lit "Sec-WebSocket-Accept: " ++ accept]

theorem handshakeResponse_eq (key : Str) :
    handshakeResponse key = encFields (upgradeLines (wsAcceptKey key)) := by
  have hstatus : lit "HTTP/1.1 101 Switching Protocols\r\n"
      = lit "HTTP/1.1 101 Switching Protocols" ++ crlf := by decide
  have hupgrade : lit "Upgrade: websocket\r\n" = lit "Upgrade: websocket" ++ crlf := by decide
  have hconnection : lit "Connection: Upgrade\r\n" = lit "Connection: Upgrade" ++ crlf := by decide
  rw [handshakeResponse, hstatus, hupgrade, hconnection, blank_eq]
  simp only [upgradeLines, encFields, List.flatMap_cons, List.flatMap_nil, List.append_assoc,
    List.append_nil]

theorem readLines_handshakeResponse (key : Str) (rest : List UInt8) {n : Nat} (hn : 4 < n) :
    readLines n (handshakeResponse key ++ rest) = some (upgradeLines (wsAcceptKey key), rest) := by
  have hlf : (10 : UInt8) ∉ wsAcceptKey key := fun hmem =>
    absurd (unescaped_base64Encode _ _ hmem).1 (by decide)
  rw [handshakeResponse_eq]
  refine readLines_encFields ?_ rest hn
  have hlast : IsLine (lit "Sec-WebSocket-Accept: " ++ wsAcceptKey key) := by
    refine IsLine.of_not_mem ?_
    rw [List.mem_append, not_or]
    exact ⟨by decide, hlf⟩
  simp only [upgradeLines, List.forall_mem_cons]
  exact ⟨⟨by decide, by decide⟩, ⟨by decide, by decide⟩, ⟨by decide, by decide⟩,
    ⟨hlast, List.cons_ne_nil _ _⟩, List.forall_mem_nil _⟩

/-- The key of the response is that of the key of the request. -/
theorem decode_wsAcceptKey {key : Str} (hlen : key.length ≤ maxRequest) :
    Base64.decode (wsAcceptKey key) = some (Lib.Sha1.digest (key ++ wsGuid)) := by
  have hguid : wsGuid.length = 36 := by decide
  have hmax : maxRequest = 8192 := rfl
  rw [wsAcceptKey, decode_base64Encode, Sha1.digest_eq]
  rw [List.length_append]
  omega

theorem length_trimOws_le (s : Str) : (trimOws s).length ≤ s.length :=
  (List.rdropWhile_prefix isOws _).length_le.trans (List.dropWhile_suffix isOws).length_le

theorem length_findKey_le (req : Str) : (findKey req).length ≤ req.length := by
  unfold findKey
  split
  · exact Nat.zero_le _
  · dsimp only
    split
    · exact (length_trimOws_le _).trans (List.drop_suffix _ _).length_le
    · exact (length_trimOws_le _).trans
        ((List.take_prefix _ _).length_le.trans (List.drop_suffix _ _).length_le)

/-! ## The frames -/

/-- A frame of the server: its opcode, and the client's frame whose payload it sends back. -/
def answerFrame (a : UInt8 × ClientFrame) : List UInt8 := wsFrame a.1 a.2.payload

/-- The answers to frames of which none is a close. -/
def pongs (fs : List ClientFrame) : List (UInt8 × ClientFrame) :=
  (fs.filter fun f => f.opcode == 0x9).map fun f => (0xA, f)

theorem flatMap_pong (fs : List ClientFrame) :
    fs.flatMap ClientFrame.pong = (pongs fs).flatMap answerFrame := by
  induction fs with
  | nil => rfl
  | cons f fs ih =>
      by_cases hping : f.opcode = 0x9
      · have hpongs : pongs (f :: fs) = (0xA, f) :: pongs fs := by
          rw [pongs, List.filter_cons_of_pos (by simpa using hping)]
          rfl
        rw [List.flatMap_cons, ih, ClientFrame.pong, if_pos hping, hpongs]
        rfl
      · have hpongs : pongs (f :: fs) = pongs fs := by
          rw [pongs, List.filter_cons_of_neg (by simpa using hping)]
          rfl
        rw [List.flatMap_cons, ih, ClientFrame.pong, if_neg hping, hpongs]
        rfl

/-- The opcodes and payloads of the whole frames, and what is left. -/
def readFrames (input : List UInt8) : List (UInt8 × Str) × List UInt8 :=
  readAll readAnyFrame input.length input

/-- What a client reads of a frame. -/
def shown (a : UInt8 × ClientFrame) : UInt8 × Str :=
  ((serverFrame a.1 a.2.payload a.2.payload_lt).opcode, a.2.payload)

theorem shown_eq {opcode : UInt8} (hop : opcode < 16) (f : ClientFrame) :
    shown (opcode, f) = (opcode, f.payload) := by
  rw [shown, serverFrame_opcode _ hop]

theorem reads_answerFrame : Reads readAnyFrame answerFrame shown where
  empty := rfl
  whole a := readAnyFrame_wsFrame a.2.payload_lt
  more h := readAnyFrame_more h

theorem readFrames_answers (as : List (UInt8 × ClientFrame)) :
    readFrames (as.flatMap answerFrame) = (as.map shown, []) := by
  have hcount := length_le_length_flatMap answerFrame as
    fun a _ => List.length_pos_of_ne_nil (wsFrame_ne_nil a.1 a.2.payload)
  have hread := reads_answerFrame.readAll (Or.inl rfl) as hcount
  rwa [List.append_nil] at hread

section
variable {k : Kernel} (hk : k.Steady)
include hk

/-- The client loop from any point of the connection. -/
theorem serveCalls_frames_from (eof : Bool) (fs : List ClientFrame)
    (hopen : ∀ f ∈ fs, f.opcode ≠ 0x8) (rest : List UInt8) (r : Nat) (t : Outbound) :
    ∃ c d, serveCalls k eof (fun _ => true) (fun _ => true) ⟨wire fs ++ rest, r⟩ t fs.length
      = .serving ⟨rest, c⟩ ⟨t.output ++ (pongs fs).flatMap answerFrame, d⟩ := by
  rw [← flatMap_pong]
  induction fs using List.reverseRecOn generalizing rest with
  | nil => exact ⟨r, t.sends, by rw [List.flatMap_nil, List.append_nil]; rfl⟩
  | append_singleton fs f ih =>
      have hfs : ∀ g ∈ fs, g.opcode ≠ 0x8 := fun g hg => hopen g (List.mem_append_left _ hg)
      have hf : f.opcode ≠ 0x8 := hopen f (List.mem_append_right _ (List.mem_singleton_self f))
      obtain ⟨c, d, hrun⟩ := ih hfs (f.encode ++ rest)
      obtain ⟨c', d', hround⟩ :=
        handleCalls_open hk eof hf rest c ⟨t.output ++ fs.flatMap ClientFrame.pong, d⟩
      have hwire : wire (fs ++ [f]) ++ rest = wire fs ++ (f.encode ++ rest) := by
        rw [wire_append, List.append_assoc, wire_cons, wire_nil, List.append_nil]
      refine ⟨c', d', ?_⟩
      rw [hwire, List.length_append, List.length_singleton, serveCalls, hrun, List.flatMap_append,
        List.flatMap_singleton, ← List.append_assoc]
      simp only [loopStep, if_pos, hround]

/-- Up to a close, which is answered and ends the loop. -/
theorem serveCalls_close_from (eof : Bool) (fs : List ClientFrame)
    (hopen : ∀ f ∈ fs, f.opcode ≠ 0x8) {f : ClientFrame} (hclose : f.opcode = 0x8)
    (rest : List UInt8) (r : Nat) (t : Outbound) :
    ∃ c d, ∀ n > fs.length,
      serveCalls k eof (fun _ => true) (fun _ => true) ⟨wire fs ++ (f.encode ++ rest), r⟩ t n
        = .left ⟨rest, c⟩ ⟨t.output ++ (pongs fs ++ [(0x8, f)]).flatMap answerFrame, d⟩ := by
  obtain ⟨c, d, hrun⟩ := serveCalls_frames_from hk eof fs hopen (f.encode ++ rest) r t
  obtain ⟨c', d', hround⟩ := handleCalls_close hk eof hclose rest c
    ⟨t.output ++ (pongs fs).flatMap answerFrame, d⟩
  have hleft : serveCalls k eof (fun _ => true) (fun _ => true) ⟨wire fs ++ (f.encode ++ rest), r⟩ t
      (fs.length + 1)
        = .left ⟨rest, c'⟩ ⟨t.output ++ (pongs fs ++ [(0x8, f)]).flatMap answerFrame, d'⟩ := by
    rw [serveCalls, hrun, List.flatMap_append, List.flatMap_singleton, ← List.append_assoc]
    simp only [loopStep, if_pos, hround]
    rfl
  exact ⟨c', d', fun n hn => serveCalls_left hleft hn⟩

end

/-! ## The session -/

/-- What a client reads of a session: the lines of the response, and the opcodes and payloads of the
frames. -/
def readSession (output : List UInt8) : Option (List Str × List (UInt8 × Str) × List UInt8) :=
  (readLines (output.length + 1) output).map fun r => (r.1, readFrames r.2)

/-- A pong for each ping, with its payload. -/
def pongsOf (fs : List ClientFrame) : List (UInt8 × Str) :=
  (fs.filter fun f => f.opcode == 0x9).map fun f => (0xA, f.payload)

theorem map_shown_pongs (fs : List ClientFrame) : (pongs fs).map shown = pongsOf fs := by
  rw [pongs, List.map_map, pongsOf]
  exact List.map_congr_left fun f _ => shown_eq (by decide) f

theorem readSession_answers (key : Str) (as : List (UInt8 × ClientFrame)) :
    readSession (handshakeResponse key ++ as.flatMap answerFrame)
      = some (upgradeLines (wsAcceptKey key), as.map shown, []) := by
  have hlines : 4 ≤ (handshakeResponse key).length := by
    rw [handshakeResponse_eq]
    exact length_le_encFields (upgradeLines (wsAcceptKey key))
  rw [readSession, readLines_handshakeResponse key _ (by rw [List.length_append]; omega),
    Option.map_some, readFrames_answers]

/-- **A WebSocket session.** A client sends a request in which a key is found and frames behind it,
however its bytes are cut by the calls. As long as none of the frames is a close the session goes on
with just the bytes behind them; at the first close it ends. What the client then reads is the
response, whose key is the SHA-1 of its own one in Base64, and a pong with the payload of each of its
pings, in order, and at the end a close with that of its close. The key is that of the request's
field, if the field is `Aligned`. -/
theorem session_upgrade {k : Kernel} (hk : k.Steady) (eof : Bool) (r : Request)
    (hlen : r.bytes.length ≤ maxRequest) (hkey : findKey r.bytes ≠ [])
    (hwhole : (handshakeResponse (findKey r.bytes)).length ≤ k.sendSize 0) (fs : List ClientFrame)
    (hopen : ∀ f ∈ fs, f.opcode ≠ 0x8) (rest : List UInt8) :
    (Aligned r → findKey r.bytes = keyValue r) ∧
    Base64.decode (wsAcceptKey (findKey r.bytes))
      = some (Lib.Sha1.digest (findKey r.bytes ++ wsGuid)) ∧
    (∃ s t, session k eof (fun _ => true) (fun _ => true) (r.bytes ++ (wire fs ++ rest)) fs.length
        = .entered (.serving s t) ∧ s.input = rest ∧
      readSession t.output
        = some (upgradeLines (wsAcceptKey (findKey r.bytes)), pongsOf fs, [])) ∧
    ∀ (f : ClientFrame) (left : List UInt8), f.opcode = 0x8 → rest = f.encode ++ left →
      ∃ s t, (∀ n > fs.length, session k eof (fun _ => true) (fun _ => true)
          (r.bytes ++ (wire fs ++ rest)) n = .entered (.left s t)) ∧ s.input = left ∧
        readSession t.output = some (upgradeLines (wsAcceptKey (findKey r.bytes)),
          pongsOf fs ++ [(0x8, f.payload)], []) := by
  have hshort : (findKey r.bytes).length ≤ maxRequest := (length_findKey_le _).trans hlen
  have hsend : k.sendSize 0 ≠ 0 := Nat.ne_of_gt (hk.send 0)
  have hstart : ∀ n, session k eof (fun _ => true) (fun _ => true) (r.bytes ++ (wire fs ++ rest)) n
      = .entered (serveCalls k eof (fun _ => true) (fun _ => true)
        ⟨wire fs ++ rest, (r.bytes ++ (wire fs ++ rest)).length - (wire fs ++ rest).length⟩
        ⟨handshakeResponse (findKey r.bytes), 1⟩ n) := by
    intro n
    rw [session, handshake_bytes r hlen hkey]
    dsimp only
    rw [if_neg hsend, List.take_of_length_le hwhole]
  refine ⟨findKey_of_aligned, decode_wsAcceptKey hshort, ?_, fun f left hclose hrest => ?_⟩
  · obtain ⟨c, d, hrun⟩ := serveCalls_frames_from hk eof fs hopen rest
      ((r.bytes ++ (wire fs ++ rest)).length - (wire fs ++ rest).length)
      ⟨handshakeResponse (findKey r.bytes), 1⟩
    refine ⟨⟨rest, c⟩, ⟨handshakeResponse (findKey r.bytes) ++ (pongs fs).flatMap answerFrame, d⟩, ?_,
      rfl, ?_⟩
    · rw [hstart, hrun]
    · rw [readSession_answers, map_shown_pongs]
  · subst hrest
    obtain ⟨c, d, hrun⟩ := serveCalls_close_from hk eof fs hopen hclose left
      ((r.bytes ++ (wire fs ++ (f.encode ++ left))).length - (wire fs ++ (f.encode ++ left)).length)
      ⟨handshakeResponse (findKey r.bytes), 1⟩
    refine ⟨⟨left, c⟩, ⟨handshakeResponse (findKey r.bytes)
      ++ (pongs fs ++ [(0x8, f)]).flatMap answerFrame, d⟩, fun n hn => ?_, rfl, ?_⟩
    · rw [hstart, hrun n hn]
    · rw [readSession_answers, List.map_append, map_shown_pongs, List.map_singleton,
        shown_eq (by decide)]

/-- `::recv` gives a byte a call; `::send` takes up to 200. -/
def roomy : Kernel := ⟨fun _ => 1, fun _ => 200⟩

theorem session_upgrade_ping :
    ∃ s t, (∀ n > 1, session roomy false (fun _ => true) (fun _ => true)
        (upgradeRequest.bytes ++ (wire [ping] ++ (longClose.encode ++ [0x81]))) n
          = .entered (.left s t)) ∧ s.input = [0x81] ∧
      readSession t.output = some (upgradeLines (wsAcceptKey (findKey upgradeRequest.bytes)),
        [(0xA, [7, 8]), (0x8, [3, 232])], []) :=
  (session_upgrade ⟨fun _ => Nat.one_pos, fun _ => (by decide : 0 < 200)⟩ false upgradeRequest (by decide)
    (by decide +kernel) (by decide +kernel) [ping] (by decide)
    (longClose.encode ++ [0x81])).2.2.2 longClose [0x81] (by decide) rfl

end Mawmaw.Pub
