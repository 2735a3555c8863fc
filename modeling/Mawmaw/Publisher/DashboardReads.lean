import Mawmaw.Lib.Scan
import Mawmaw.Publisher.Dashboard

/-!
# What the dashboard reads of an event

* `scanStreamChunk`, `scanScriptChunk` : the two handlers with the payload offsets they read, and
  `value_scanStreamChunk`, `value_scanScriptChunk` : they do what the endpoint's model does;
* `dispatch` : the handler an event goes to;
* `Bounded`, `Tolerates` : only used bytes are read, and nothing is added from a malformed chunk;
* `tolerates_iff` : the events the endpoint tolerates.
-/

namespace Mawmaw.Lib.Assembler
variable {K I E : Type} [DecidableEq K]

/-- The test for a chunk that is out of range or a duplicate. -/
def Ignores (a : Assembler K I E) (c : Chunk K I E) : Prop :=
  c.index ≥ (a.current c).received.length ∨ (a.current c).received.getD c.index false = true

instance (a : Assembler K I E) (c : Chunk K I E) : Decidable (a.Ignores c) :=
  inferInstanceAs (Decidable (_ ∨ _))

theorem receive_eq (a : Assembler K I E) (c : Chunk K I E) :
    a.receive c = if a.Ignores c then { a with pending := some (a.current c) }
      else if ((a.current c).accept c).received.all id then
        { pending := none, latest := some ((a.current c).accept c) }
      else { a with pending := some ((a.current c).accept c) } := rfl

/-- The entries a chunk adds to its group. -/
def added (a : Assembler K I E) (c : Chunk K I E) : List E := if a.Ignores c then [] else c.items

/-- They are what its group has more after the chunk, be it pending or shown. -/
theorem receive_added (a : Assembler K I E) (c : Chunk K I E) :
    ∃ g, ((a.receive c).pending = some g ∨ (a.receive c).latest = some g)
      ∧ g.items = (a.current c).items ++ a.added c := by
  rw [receive_eq, added]
  by_cases h : a.Ignores c
  · rw [if_pos h, if_pos h, List.append_nil]
    exact ⟨a.current c, .inl rfl, rfl⟩
  · rw [if_neg h, if_neg h]
    refine ⟨(a.current c).accept c, ?_, rfl⟩
    split
    · exact .inr rfl
    · exact .inl rfl

end Mawmaw.Lib.Assembler

namespace Mawmaw.Pub
open Mawmaw.Lib Mawmaw.Core

variable {P : Nat}

/-! ## Reading with offsets -/

/-- `read_u64`. -/
def scanU64 (off : Nat) : Scan UInt64 := do
  let bs ← Scan.block off 8
  pure (orIn bs 0 0)

/-- `read_u16`. -/
def scanU16 (off : Nat) : Scan UInt16 := do
  let bs ← Scan.block off 2
  pure (ofLE16 bs)

/-- `memcpy(id, p, 32)` into a buffer with a NUL at its end. -/
def scanId (off : Nat) : Scan Str := do
  let bs ← Scan.block off 32
  pure (cstr (bs ++ [0]))

def scanStreamEntry (off : Nat) : Scan (Str × UInt64) := do
  let id ← scanId off
  let count ← scanU64 (off + 32)
  pure (id, count)

def scanScriptEntry (off : Nat) : Scan ScriptEntry := do
  let id ← scanId off
  let count ← scanU64 (off + 32)
  let avg ← scanU64 (off + 40)
  let min ← scanU64 (off + 48)
  let max ← scanU64 (off + 56)
  pure { id, count, avg, min, max }

/-- What follows the header: `c` has no entries yet, and they are read if it is not ignored. -/
def scanEntries {I E : Type} (a : Assembler UInt64 I E) (c : Chunk UInt64 I E)
    (entries : Scan (List E)) : Scan (Assembler UInt64 I E) :=
  if a.Ignores c then pure { a with pending := some (a.current c) }
  else do
    let items ← entries
    let g := (a.current c).accept { c with items }
    pure (if g.received.all id then { pending := none, latest := some g }
      else { a with pending := some g })

/-- `handle_stream_chunk`. -/
def scanStreamChunk (a : Assembler UInt64 StreamTotals (Str × UInt64)) :
    Scan (Assembler UInt64 StreamTotals (Str × UInt64)) := do
  let ts ← scanU64 0
  let totalEvents ← scanU64 8
  let totalEmitted ← scanU64 16
  let drops ← scanU64 24
  let chunkIndex ← Scan.byte 32
  let chunkCount ← Scan.byte 33
  let n ← scanU16 34
  let header : Chunk UInt64 StreamTotals (Str × UInt64) :=
    { key := ts, info := { totalEvents, totalEmitted, drops }
      index := chunkIndex.toNat, count := chunkCount.toNat, items := [] }
  scanEntries a header (Scan.records scanStreamEntry 40 n.toNat 36)

/-- `handle_script_chunk`. -/
def scanScriptChunk (a : Assembler UInt64 Unit ScriptEntry) :
    Scan (Assembler UInt64 Unit ScriptEntry) := do
  let ts ← scanU64 0
  let chunkIndex ← Scan.byte 8
  let chunkCount ← Scan.byte 9
  let n ← scanU16 10
  let header : Chunk UInt64 Unit ScriptEntry :=
    { key := ts, info := (), index := chunkIndex.toNat, count := chunkCount.toNat, items := [] }
  scanEntries a header (Scan.records scanScriptEntry 64 n.toNat 12)

section
variable (p : List UInt8) (off : Nat)

@[simp] theorem value_scanU64 : (scanU64 off).value p = readU64 p off := rfl

@[simp] theorem value_scanU16 : (scanU16 off).value p = readU16 p off := rfl

@[simp] theorem reads_scanU64 : (scanU64 off).reads p = List.range' off 8 := rfl

@[simp] theorem reads_scanU16 : (scanU16 off).reads p = List.range' off 2 := rfl

theorem value_scanStreamEntry : (scanStreamEntry off).value p = readStreamEntry p off := rfl

theorem value_scanScriptEntry : (scanScriptEntry off).value p = readScriptEntry p off := rfl

theorem reads_scanStreamEntry : (scanStreamEntry off).reads p = List.range' off 40 := rfl

theorem reads_scanScriptEntry : (scanScriptEntry off).reads p = List.range' off 64 := rfl

end

/-! ## The handlers -/

section
variable {I E : Type} (a : Assembler UInt64 I E) (c : Chunk UInt64 I E) (entries : Scan (List E))
  (p : List UInt8)

theorem value_scanEntries :
    (scanEntries a c entries).value p = a.receive { c with items := entries.value p } := by
  have hsame : a.Ignores { c with items := entries.value p } ↔ a.Ignores c := Iff.rfl
  rw [Assembler.receive_eq, scanEntries]
  by_cases h : a.Ignores c
  · rw [if_pos h, if_pos (hsame.mpr h)]
    rfl
  · rw [if_neg h, if_neg (hsame.not.mpr h)]
    rfl

theorem reads_scanEntries :
    (scanEntries a c entries).reads p = if a.Ignores c then [] else entries.reads p := by
  unfold scanEntries
  split
  · rfl
  · rw [Scan.reads_bind, Scan.reads_pure, List.append_nil]

end

section
variable (p : List UInt8)

theorem value_scanStreamChunk (a : Assembler UInt64 StreamTotals (Str × UInt64)) :
    (scanStreamChunk a).value p = a.receive (readStreamChunk p) := by
  simp only [scanStreamChunk, Scan.value_bind, value_scanU64, value_scanU16, Scan.value_byte,
    value_scanEntries, Scan.value_records p (value_scanStreamEntry p)]
  rfl

theorem value_scanScriptChunk (a : Assembler UInt64 Unit ScriptEntry) :
    (scanScriptChunk a).value p = a.receive (readScriptChunk p) := by
  simp only [scanScriptChunk, Scan.value_bind, value_scanU64, value_scanU16, Scan.value_byte,
    value_scanEntries, Scan.value_records p (value_scanScriptEntry p)]
  rfl

theorem reads_scanStreamChunk (a : Assembler UInt64 StreamTotals (Str × UInt64)) :
    (scanStreamChunk a).reads p = List.range' 0 36 ++
      if a.Ignores (readStreamChunk p) then []
      else List.range' 36 (40 * (readStreamHeader p).n) := by
  simp only [scanStreamChunk, Scan.reads_bind, reads_scanU64, reads_scanU16,
    value_scanU64, value_scanU16, Scan.reads_byte, Scan.value_byte, reads_scanEntries,
    Scan.reads_records p (reads_scanStreamEntry p)]
  rfl

theorem reads_scanScriptChunk (a : Assembler UInt64 Unit ScriptEntry) :
    (scanScriptChunk a).reads p = List.range' 0 12 ++
      if a.Ignores (readScriptChunk p) then []
      else List.range' 12 (64 * (readScriptHeader p).n) := by
  simp only [scanScriptChunk, Scan.reads_bind, reads_scanU64, reads_scanU16,
    value_scanU64, value_scanU16, Scan.reads_byte, Scan.value_byte, reads_scanEntries,
    Scan.reads_records p (reads_scanScriptEntry p)]
  rfl

end

/-! ## Events -/

inductive Handler
  | streams
  | scripts
  deriving DecidableEq, Repr

/-- The handler `publish` gives an event to. -/
def dispatch (ev : Event P) : Option Handler :=
  if !strncmpEq ev.streamId.toList (lit "telemetry") 9
      && !strncmpEq ev.streamId.toList (lit "telemetry.") 10 then none
  else if strncmpEq ev.schemaId.toList (lit "streams_v1") 10 then some .streams
  else if strncmpEq ev.schemaId.toList (lit "scripts_v1") 10 then some .scripts
  else none

/-- `publish`, with the handlers that note their reads; an event without a handler leaves the groups
as they are. -/
theorem publish_groups (ep : TelemetryStdoutEndpoint) (ev : Event P) :
    ((ep.publish ev).streams, (ep.publish ev).scripts)
      = match dispatch ev with
        | some .streams => ((scanStreamChunk ep.streams).value ev.payload.toList, ep.scripts)
        | some .scripts => (ep.streams, (scanScriptChunk ep.scripts).value ev.payload.toList)
        | none => (ep.streams, ep.scripts) := by
  unfold TelemetryStdoutEndpoint.publish dispatch
  rw [value_scanStreamChunk, value_scanScriptChunk]
  split
  · rfl
  · split
    · rfl
    · split <;> rfl

/-- Of an event with `size` used bytes, only these are read, and a chunk that would need more of
them adds nothing. -/
structure Bounded {E : Type} (reads : List Nat) (added : List E) (need size : Nat) : Prop where
  reads : ∀ off ∈ reads, off < size
  malformed : size < need → added = []

theorem bounded_iff {E : Type} {reads : List Nat} {added : List E} {ignored : Prop}
    [Decidable ignored] {headerSize rest size : Nat} (hpos : 0 < headerSize)
    (hreads : reads = List.range' 0 headerSize ++ if ignored then []
      else List.range' headerSize rest)
    (hadded : ignored → added = []) :
    Bounded reads added (headerSize + rest) size
      ↔ headerSize ≤ size ∧ (ignored ∨ headerSize + rest ≤ size) := by
  constructor
  · intro hb
    have hheader : headerSize ≤ size := by
      have hlast := hb.reads (headerSize - 1) (by
        rw [hreads, List.mem_append, List.mem_range'_1]
        left
        omega)
      omega
    refine ⟨hheader, ?_⟩
    by_cases hign : ignored
    · exact .inl hign
    · right
      rcases Nat.eq_zero_or_pos rest with hzero | hrest
      · omega
      · have hlast := hb.reads (headerSize + rest - 1) (by
          rw [hreads, if_neg hign, List.mem_append, List.mem_range'_1, List.mem_range'_1]
          right
          omega)
        omega
  · rintro ⟨hheader, hrest⟩
    constructor
    · intro off hoff
      rw [hreads, List.mem_append, List.mem_range'_1] at hoff
      rcases hoff with hoff | hoff
      · omega
      · by_cases hign : ignored
        · rw [if_pos hign] at hoff
          cases hoff
        · rw [if_neg hign, List.mem_range'_1] at hoff
          have hfit := hrest.resolve_left hign
          omega
    · intro hneed
      exact hadded (hrest.resolve_right (by omega))

/-- The handler of an event reads only the bytes the event uses, and adds no entry from a chunk that
does not fit them. -/
def Tolerates (ep : TelemetryStdoutEndpoint) (ev : Event P) : Prop :=
  match dispatch ev with
  | some .streams =>
    Bounded ((scanStreamChunk ep.streams).reads ev.payload.toList)
      (ep.streams.added (readStreamChunk ev.payload.toList))
      (36 + 40 * (readStreamHeader ev.payload.toList).n) ev.payloadSize.toNat
  | some .scripts =>
    Bounded ((scanScriptChunk ep.scripts).reads ev.payload.toList)
      (ep.scripts.added (readScriptChunk ev.payload.toList))
      (12 + 64 * (readScriptHeader ev.payload.toList).n) ev.payloadSize.toNat
  | none => True

/-- The header is among the used bytes, and so are the entries unless the chunk is ignored. -/
def FitsPayload (ep : TelemetryStdoutEndpoint) (ev : Event P) : Prop :=
  match dispatch ev with
  | some .streams =>
    36 ≤ ev.payloadSize.toNat ∧ (ep.streams.Ignores (readStreamChunk ev.payload.toList)
      ∨ 36 + 40 * (readStreamHeader ev.payload.toList).n ≤ ev.payloadSize.toNat)
  | some .scripts =>
    12 ≤ ev.payloadSize.toNat ∧ (ep.scripts.Ignores (readScriptChunk ev.payload.toList)
      ∨ 12 + 64 * (readScriptHeader ev.payload.toList).n ≤ ev.payloadSize.toNat)
  | none => True

theorem tolerates_iff (ep : TelemetryStdoutEndpoint) (ev : Event P) :
    Tolerates ep ev ↔ FitsPayload ep ev := by
  unfold Tolerates FitsPayload
  cases dispatch ev with
  | none => exact Iff.rfl
  | some handler =>
      cases handler with
      | streams =>
          exact bounded_iff (by decide) (reads_scanStreamChunk _ ep.streams) fun h => if_pos h
      | scripts =>
          exact bounded_iff (by decide) (reads_scanScriptChunk _ ep.scripts) fun h => if_pos h

/-- Two bytes of a stream whose name starts with `telemetry`. -/
def userEvent : Event 256 :=
  (((({} : Event 256).setStream (lit "telemetry_log")).setSchema (lit "streams_v1")).setPayload
    (lit "hi")).2

theorem userEvent_not_tolerated :
    userEvent.payloadSize.toNat ≤ 256 ∧ ¬Tolerates { id := lit "dashboard" } userEvent := by
  refine ⟨by decide, fun h => ?_⟩
  have hdispatch : dispatch userEvent = some .streams := by decide +kernel
  unfold Tolerates at h
  rw [hdispatch] at h
  have hlast := h.reads 35 (by
    rw [reads_scanStreamChunk, List.mem_append, List.mem_range'_1]
    left
    omega)
  exact absurd hlast (by decide)

end Mawmaw.Pub
