import Mawmaw.Core.Event
import Mawmaw.Lib.Numeral

/-!
# WebSocket frames

* `base64Encode`, `toJson` : the text of an event;
* `wsFrame` : the buffer `ws_send_frame` sends;
* `readHeader`, `handleIncomingFrame` : one round of a client's handler on the bytes the client has
  sent and the handler has not read.
-/

namespace Mawmaw.Pub
open Mawmaw.Lib Mawmaw.Core

variable {P : Nat}

/-! ## Outgoing -/

def base64Table : Str := lit "ABCDEFGHIJKLMNOPQRSTUVWXYZabcdefghijklmnopqrstuvwxyz0123456789+/"

/-- `tbl[(n >> shift) & 0x3F]`. -/
def base64Char (n : UInt32) (shift : UInt32) : UInt8 :=
  base64Table.getD ((n >>> shift) &&& 0x3F).toNat 0

def base64Encode : List UInt8 → Str
  | a :: b :: c :: rest =>
    let n : UInt32 := (a.toUInt32 <<< 16) ||| (b.toUInt32 <<< 8) ||| c.toUInt32
    [base64Char n 18, base64Char n 12, base64Char n 6, base64Char n 0] ++ base64Encode rest
  | [a, b] =>
    let n : UInt32 := (a.toUInt32 <<< 16) ||| (b.toUInt32 <<< 8)
    [base64Char n 18, base64Char n 12, base64Char n 6] ++ lit "="
  | [a] =>
    let n : UInt32 := a.toUInt32 <<< 16
    [base64Char n 18, base64Char n 12] ++ lit "=="
  | [] => []

/-- The identifiers are written as they are. -/
def toJson (ev : Event P) : Str :=
  lit "\x7b" ++ lit "\"ts\":" ++ natStr ev.timestampNs.toNat ++ lit ","
    ++ lit "\"seq\":" ++ natStr ev.sequence.toNat ++ lit ","
    ++ lit "\"lineage\":" ++ natStr ev.lineageDepth.toNat ++ lit ","
    ++ lit "\"stream\":\"" ++ ev.stream ++ lit "\","
    ++ lit "\"schema\":\"" ++ ev.schema ++ lit "\","
    ++ lit "\"payload_size\":" ++ natStr ev.payloadSize.toNat ++ lit ","
    ++ lit "\"payload_b64\":\"" ++ base64Encode ev.bytes ++ lit "\"" ++ lit "\x7d"

/-- Length of a frame in one, three or nine bytes. -/
def wsLength (len : Nat) : List UInt8 :=
  if len ≤ 125 then [UInt8.ofNat len]
  else if len ≤ 0xFFFF then [126, UInt8.ofNat (len >>> 8), UInt8.ofNat len]
  else 127 :: [7, 6, 5, 4, 3, 2, 1, 0].map fun i => UInt8.ofNat (len >>> (i * 8))

/-- The buffer `ws_send_frame` sends: final, not masked. -/
def wsFrame (opcode : UInt8) (payload : List UInt8) : List UInt8 :=
  (0x80 ||| (opcode &&& 0x0F)) :: (wsLength payload.length ++ payload)

theorem wsFrame_ne_nil (opcode : UInt8) (payload : List UInt8) : wsFrame opcode payload ≠ [] :=
  List.cons_ne_nil _ _

/-- The frame a handler answers an incoming frame with: a close with a close, a ping with a pong. -/
def replyFrame (opcode : UInt8) (payload : List UInt8) : Option (List UInt8) :=
  if opcode = 0x8 then some (wsFrame 0x8 payload)
  else if opcode = 0x9 then some (wsFrame 0xA payload)
  else none

/-! ## Incoming -/

/-- A read of the client's bytes: what was read and what is left, end of file or an error, or
blocked until more comes. -/
inductive ReadResult (α : Type)
  | ok (a : α) (rest : List UInt8)
  | failed
  | waiting
  deriving DecidableEq, Repr

/-- `if (!read_exact(..)) return false`, and go on with what was read. -/
def ReadResult.andThen {α β : Type} (r : ReadResult α) (next : α → List UInt8 → ReadResult β) :
    ReadResult β :=
  match r with
  | .ok a rest => next a rest
  | .failed => .failed
  | .waiting => .waiting

/-- `input` are the bytes that have come; `eof` says whether the end of file follows them. -/
def readExact (eof : Bool) (input : List UInt8) (n : Nat) : ReadResult (List UInt8) :=
  if n ≤ input.length then .ok (input.take n) (input.drop n)
  else if eof then .failed
  else .waiting

structure FrameHeader where
  opcode : UInt8
  len : UInt64
  key : Option (List UInt8)
  deriving DecidableEq, Repr

/-- The payload without its mask. -/
def FrameHeader.unmask (h : FrameHeader) (payload : List UInt8) : List UInt8 :=
  match h.key with
  | none => payload
  | some key => payload.mapIdx fun i b => b ^^^ key.getD (i % 4) 0

/-- `len = (len << 8) | ext[i]` for every byte. -/
def bigEndian (ext : List UInt8) : UInt64 := ext.foldl (fun len b => (len <<< 8) ||| b.toUInt64) 0

/-- The length: in the second byte, or in the two or eight bytes after it. -/
def readLength (eof : Bool) (len : UInt8) (input : List UInt8) : ReadResult UInt64 :=
  if len = 126 then (readExact eof input 2).andThen fun ext rest => .ok (bigEndian ext) rest
  else if len = 127 then (readExact eof input 8).andThen fun ext rest => .ok (bigEndian ext) rest
  else .ok len.toUInt64 input

def readKey (eof masked : Bool) (input : List UInt8) : ReadResult (Option (List UInt8)) :=
  if masked then (readExact eof input 4).andThen fun key rest => .ok (some key) rest
  else .ok none input

def readHeader (eof : Bool) (input : List UInt8) : ReadResult FrameHeader :=
  (readExact eof input 2).andThen fun hdr rest =>
    let masked := (hdr.getD 1 0 &&& 0x80) != 0
    let opcode := hdr.getD 0 0 &&& 0x0F
    (readLength eof (hdr.getD 1 0 &&& 0x7F) rest).andThen fun len rest =>
      (readKey eof masked rest).andThen fun key rest => .ok ⟨opcode, len, key⟩ rest

/-- What comes of a round: it returns, with the bytes left, it waits for more bytes, or an
exception leaves it. -/
inductive FrameResult
  | returned (ok : Bool) (rest : List UInt8)
  | waiting
  | thrown
  deriving DecidableEq, Repr

/-- The answer, if there is one, is sent from a vector of its size; whether it is sent does not
matter. -/
def answer (accepts : Nat → Bool) (opcode : UInt8) (payload rest : List UInt8) : FrameResult :=
  match replyFrame opcode payload with
  | none => .returned true rest
  | some frame => if accepts frame.length then .returned (opcode != 0x8) rest else .thrown

/-- One call of `ws_handle_incoming_frame`. `accepts n` says whether a vector of `n` bytes can be
made, or its constructor throws. -/
def handleIncomingFrame (accepts : Nat → Bool) (eof : Bool) (input : List UInt8) : FrameResult :=
  match readHeader eof input with
  | .failed => .returned false []
  | .waiting => .waiting
  | .ok h rest =>
    if accepts h.len.toNat then
      match readExact eof rest h.len.toNat with
      | .failed => .returned false []
      | .waiting => .waiting
      | .ok payload rest => answer accepts h.opcode (h.unmask payload) rest
    else .thrown

end Mawmaw.Pub
