import Mawmaw.Core.Event
import Mawmaw.Lib.LittleEndian
import Mawmaw.Lib.Reassembly

/-!
# The telemetry dashboard

`TelemetryStdoutEndpoint` : the endpoint that puts metrics chunks together again. Its pending and
latest groups, one pair for each kind of metrics, are the two fields of an `Assembler`; what it
draws from the latest groups is left out.

* `readStreamChunk`, `readScriptChunk` : the chunk in a payload, entries included;
* `ChunkHeader`, `readStreamHeader`, `readScriptHeader` : the last fields of the header;
* `handleStreamChunk`, `handleScriptChunk`, `publish` : one event arrives.
-/

namespace Mawmaw.Pub
open Mawmaw.Lib Mawmaw.Core

variable {P : Nat}

structure StreamTotals where
  totalEvents : UInt64
  totalEmitted : UInt64
  drops : UInt64
  deriving DecidableEq, Repr

structure ScriptEntry where
  id : Str
  count : UInt64
  avg : UInt64
  min : UInt64
  max : UInt64
  deriving DecidableEq, Repr

/-- The key is the timestamp, the items are the entries. -/
abbrev StreamGroup := Group UInt64 StreamTotals (Str × UInt64)

abbrev ScriptGroup := Group UInt64 Unit ScriptEntry

/-- `cout` collects the lines about unknown schemas. -/
structure TelemetryStdoutEndpoint where
  id : Str
  streams : Assembler UInt64 StreamTotals (Str × UInt64) := {}
  scripts : Assembler UInt64 Unit ScriptEntry := {}
  cout : List Str := []
  deriving DecidableEq

/-! ## Chunks -/

def readU64 (p : List UInt8) (off : Nat) : UInt64 := orIn (slice p off 8) 0 0

def readU16 (p : List UInt8) (off : Nat) : UInt16 := ofLE16 (slice p off 2)

/-- The identifier in a 32-byte field, with a NUL put after it. -/
def readId (p : List UInt8) (off : Nat) : Str := cstr (slice p off 32 ++ [0])

def readStreamEntry (p : List UInt8) (off : Nat) : Str × UInt64 :=
  (readId p off, readU64 p (off + 32))

def readScriptEntry (p : List UInt8) (off : Nat) : ScriptEntry where
  id := readId p off
  count := readU64 p (off + 32)
  avg := readU64 p (off + 40)
  min := readU64 p (off + 48)
  max := readU64 p (off + 56)

/-- The chunk in the payload of a `streams_v1` event. -/
def readStreamChunk (p : List UInt8) : Chunk UInt64 StreamTotals (Str × UInt64) where
  key := readU64 p 0
  info := { totalEvents := readU64 p 8, totalEmitted := readU64 p 16, drops := readU64 p 24 }
  index := (p.getD 32 0).toNat
  count := (p.getD 33 0).toNat
  items := readRecords readStreamEntry 40 p (readU16 p 34).toNat 36

/-- The chunk in the payload of a `scripts_v1` event. -/
def readScriptChunk (p : List UInt8) : Chunk UInt64 Unit ScriptEntry where
  key := readU64 p 0
  info := ()
  index := (p.getD 8 0).toNat
  count := (p.getD 9 0).toNat
  items := readRecords readScriptEntry 64 p (readU16 p 10).toNat 12

/-! ## Headers -/

/-- `chunk_index`, `chunk_count` and `n`. -/
structure ChunkHeader where
  index : Nat
  count : Nat
  n : Nat
  deriving DecidableEq, Repr

def readStreamHeader (p : List UInt8) : ChunkHeader where
  index := (p.getD 32 0).toNat
  count := (p.getD 33 0).toNat
  n := (readU16 p 34).toNat

def readScriptHeader (p : List UInt8) : ChunkHeader where
  index := (p.getD 8 0).toNat
  count := (p.getD 9 0).toNat
  n := (readU16 p 10).toNat

/-- The header of the chunk the handler decodes. -/
theorem readStreamHeader_eq (p : List UInt8) :
    readStreamHeader p
      = ⟨(readStreamChunk p).index, (readStreamChunk p).count, (readStreamChunk p).items.length⟩ := by
  unfold readStreamHeader readStreamChunk
  rw [length_readRecords]

theorem readScriptHeader_eq (p : List UInt8) :
    readScriptHeader p
      = ⟨(readScriptChunk p).index, (readScriptChunk p).count, (readScriptChunk p).items.length⟩ := by
  unfold readScriptHeader readScriptChunk
  rw [length_readRecords]

/-! ## The endpoint -/

namespace TelemetryStdoutEndpoint

def handleStreamChunk (ep : TelemetryStdoutEndpoint) (ev : Event P) : TelemetryStdoutEndpoint :=
  { ep with streams := ep.streams.receive (readStreamChunk ev.payload.toList) }

def handleScriptChunk (ep : TelemetryStdoutEndpoint) (ev : Event P) : TelemetryStdoutEndpoint :=
  { ep with scripts := ep.scripts.receive (readScriptChunk ev.payload.toList) }

/-- One event arrives; only the telemetry streams are looked at. -/
def publish (ep : TelemetryStdoutEndpoint) (ev : Event P) : TelemetryStdoutEndpoint :=
  if !strncmpEq ev.streamId.toList (lit "telemetry") 9
      && !strncmpEq ev.streamId.toList (lit "telemetry.") 10 then ep
  else if strncmpEq ev.schemaId.toList (lit "streams_v1") 10 then ep.handleStreamChunk ev
  else if strncmpEq ev.schemaId.toList (lit "scripts_v1") 10 then ep.handleScriptChunk ev
  else { ep with cout := ep.cout ++ [lit "[telemetry] unknown schema: " ++ ev.schema ++ lit "\n"] }

def publishAll (ep : TelemetryStdoutEndpoint) (evs : List (Event P)) : TelemetryStdoutEndpoint :=
  evs.foldl publish ep

def pendingStream (ep : TelemetryStdoutEndpoint) : Option StreamGroup := ep.streams.pending

def latestStream (ep : TelemetryStdoutEndpoint) : Option StreamGroup := ep.streams.latest

def pendingScript (ep : TelemetryStdoutEndpoint) : Option ScriptGroup := ep.scripts.pending

def latestScript (ep : TelemetryStdoutEndpoint) : Option ScriptGroup := ep.scripts.latest

end TelemetryStdoutEndpoint

end Mawmaw.Pub
