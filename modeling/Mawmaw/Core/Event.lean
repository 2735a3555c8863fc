import Mawmaw.Lib.CString

/-!
# The event

`Event P` is the fixed-size record every component passes on, for a build whose `PAYLOAD_MAX` is
`P`. `Event.WellFormed` is what its readers rely on: the payload size fits the payload array and
both identifiers are NUL-terminated.
-/

namespace Mawmaw.Core
open Mawmaw.Lib

/-- `STREAM_ID_MAX`: 31 characters and a NUL. -/
def streamIdMax : Nat := 32

/-- `SCHEMA_ID_MAX`: 15 characters and a NUL. -/
def schemaIdMax : Nat := 16

/-- One event, with a payload array of `P = PAYLOAD_MAX` bytes. -/
structure Event (P : Nat) where
  timestampNs : UInt64 := 0
  sequence : UInt64 := 0
  lineageDepth : UInt32 := 0
  payloadSize : UInt16 := 0
  streamId : Vector UInt8 streamIdMax := Vector.replicate streamIdMax 0
  schemaId : Vector UInt8 schemaIdMax := Vector.replicate schemaIdMax 0
  payload : Vector UInt8 P := Vector.replicate P 0
  deriving DecidableEq, Repr

namespace Event
variable {P : Nat}

instance : Inhabited (Event P) := ⟨{}⟩

/-- The stream key as `std::string` reads it from the array. -/
def stream (e : Event P) : Str := cstr e.streamId.toList

def schema (e : Event P) : Str := cstr e.schemaId.toList

/-- The used bytes of the payload. -/
def bytes (e : Event P) : List UInt8 := e.payload.toList.take e.payloadSize.toNat

/-- Copies at most 31 bytes of `s` and terminates the array. -/
def setStream (e : Event P) (s : Str) : Event P :=
  { e with streamId := (strncpy e.streamId s (streamIdMax - 1)).set (streamIdMax - 1) 0 }

/-- Copies at most 15 bytes of `s` and terminates the array. -/
def setSchema (e : Event P) (s : Str) : Event P :=
  { e with schemaId := (strncpy e.schemaId s (schemaIdMax - 1)).set (schemaIdMax - 1) 0 }

/-- Copies `data` into the payload, or refuses it (`false`) when it is longer than `PAYLOAD_MAX`. -/
def setPayload (e : Event P) (data : List UInt8) : Bool × Event P :=
  if data.length > P then (false, e)
  else
    (true, { e with
      payload := Vector.ofFn fun i =>
        if i.val < data.length then data.getD i.val 0 else e.payload.get i
      payloadSize := UInt16.ofNat data.length })

/-- What readers of an event rely on. -/
structure WellFormed (e : Event P) : Prop where
  payload_le : e.payloadSize.toNat ≤ P
  stream_nul : (0 : UInt8) ∈ e.streamId.toList
  schema_nul : (0 : UInt8) ∈ e.schemaId.toList

theorem setStream_stream (e : Event P) (s : Str) :
    (e.setStream s).stream = (cstr s).take (streamIdMax - 1) :=
  cstr_strncpy_set_last e.streamId s

theorem length_bytes {e : Event P} (h : e.payloadSize.toNat ≤ P) :
    e.bytes.length = e.payloadSize.toNat := by
  simp [bytes, Nat.min_eq_left h]

theorem setPayload_payload (e : Event P) (data : List UInt8) (h : data.length ≤ P) :
    ((e.setPayload data).2.payload.toList).take data.length = data := by
  rw [setPayload, if_neg (by omega)]
  apply List.ext_getElem
  · simp [Nat.min_eq_left h]
  · intro i h₁ h₂
    simp [h₂, List.getD_eq_getElem?_getD]

theorem setPayload_payloadSize (e : Event P) (data : List UInt8) (h : data.length ≤ P) :
    (e.setPayload data).2.payloadSize = UInt16.ofNat data.length := by
  rw [setPayload, if_neg (by omega)]

theorem setPayload_bytes (e : Event P) (data : List UInt8) (h : data.length ≤ P)
    (hsize : data.length < 2 ^ 16) : (e.setPayload data).2.bytes = data := by
  rw [bytes, setPayload_payloadSize e data h, UInt16.toNat_ofNat', Nat.mod_eq_of_lt hsize,
    setPayload_payload e data h]

end Event

end Mawmaw.Core
