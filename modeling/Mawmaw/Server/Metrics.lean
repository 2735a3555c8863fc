import Mawmaw.Core.Event
import Mawmaw.Core.Telemetry
import Mawmaw.Lib.LittleEndian

/-!
# Packing the metrics

The metrics thread takes a snapshot of the counters, resets them, and sends the snapshot as chunks
that fit one event each.

* `StreamSnapshot`, `ScriptSnapshot` : what is packed; `streamSnapshot`, `scriptSnapshot` : what the
  counters hold;
* `splitLoop` : the entries of each chunk;
* `StreamSnapshot.pack`, `ScriptSnapshot.pack` : the bytes of the chunks;
* `packStreamMetrics`, `packScriptMetrics` : snapshot, chunks and reset;
* `metricsEvent` : the event a chunk is sent in.
-/

namespace Mawmaw.Core
open Mawmaw.Lib

/-! ## Snapshots -/

/-- The counters by stream, in the order the map is iterated. -/
structure StreamSnapshot where
  timestampNs : UInt64
  totalEvents : UInt64
  totalEmitted : UInt64
  drops : UInt64
  entries : List (Str × UInt64)
  deriving DecidableEq, Repr

/-- The statistics by script, in the order the map is iterated. -/
structure ScriptSnapshot where
  timestampNs : UInt64
  entries : List (Str × ScriptStats)
  deriving DecidableEq, Repr

/-! ## Chunks -/

/-- The entries of `rounds` chunks from entry `idx` on, `maxEntries` to a chunk. -/
def splitLoop {α : Type} (maxEntries : Nat) (entries : List α) : Nat → Nat → List (List α)
  | 0, _ => []
  | rounds + 1, idx =>
    let n := min maxEntries (entries.length - idx)
    (entries.drop idx).take n :: splitLoop maxEntries entries rounds (idx + n)

/-- `(total + max - 1) / max`. -/
def ceilDiv (total maxEntries : Nat) : Nat := (total + maxEntries - 1) / maxEntries

/-- `a - b` of two `size_t` values, which wraps around. -/
def sizeSub (a b : Nat) : Nat := if b ≤ a then a - b else a + 2 ^ 64 - b

theorem sizeSub_of_le {a b : Nat} (h : b ≤ a) : sizeSub a b = a - b := if_pos h

/-- An identifier in a 32-byte field, cut after 31 bytes. -/
def idField (id : Str) : List UInt8 :=
  (strncpy (Vector.replicate streamIdMax 0) id (streamIdMax - 1)).toList

namespace StreamSnapshot

/-- `HEADER_SIZE`, 36. -/
def headerSize : Nat := 8 + 8 + 8 + 8 + 1 + 1 + 2

/-- `ENTRY_SIZE`, 40. -/
def entrySize : Nat := 32 + 8

/-- `MAX_ENTRIES_PER_CHUNK`; the build requires it to be positive. -/
def maxEntries (P : Nat) : Nat := sizeSub P headerSize / entrySize

def chunkCount (P : Nat) (s : StreamSnapshot) : Nat :=
  if s.entries.length = 0 then 1 else ceilDiv s.entries.length (maxEntries P)

def entryBytes (e : Str × UInt64) : List UInt8 := idField e.1 ++ le64 e.2

/-- The bytes of chunk `c`. -/
def chunkBytes (s : StreamSnapshot) (chunkCount c : Nat) (part : List (Str × UInt64)) :
    List UInt8 :=
  le64 s.timestampNs ++ le64 s.totalEvents ++ le64 s.totalEmitted ++ le64 s.drops
    ++ [UInt8.ofNat c] ++ [UInt8.ofNat chunkCount] ++ le16 (UInt16.ofNat part.length)
    ++ part.flatMap entryBytes

/-- The entries of each chunk. -/
def parts (P : Nat) (s : StreamSnapshot) : List (List (Str × UInt64)) :=
  splitLoop (maxEntries P) s.entries (s.chunkCount P) 0

/-- The chunks; none when there is nothing to report. -/
def pack (P : Nat) (s : StreamSnapshot) : Option (List (List UInt8)) :=
  if s.entries.isEmpty && s.drops == 0 then none
  else some ((s.parts P).mapIdx fun c part => s.chunkBytes (s.chunkCount P) c part)

end StreamSnapshot

namespace ScriptSnapshot

/-- `HEADER_SIZE`, 12. -/
def headerSize : Nat := 8 + 1 + 1 + 2

/-- `ENTRY_SIZE`, 64. -/
def entrySize : Nat := 32 + 8 + 8 + 8 + 8

/-- `MAX_ENTRIES_PER_CHUNK`; the build requires it to be positive. -/
def maxEntries (P : Nat) : Nat := sizeSub P headerSize / entrySize

def chunkCount (P : Nat) (s : ScriptSnapshot) : Nat :=
  ceilDiv s.entries.length (maxEntries P)

def avgLatencyNs (st : ScriptStats) : UInt64 :=
  if st.count > 0 then st.totalLatencyNs / st.count else 0

/-- A script without calls has no minimum, which is sent as zero. -/
def minLatencyNs (st : ScriptStats) : UInt64 :=
  if st.minLatencyNs = uint64Max then 0 else st.minLatencyNs

def entryBytes (e : Str × ScriptStats) : List UInt8 :=
  idField e.1 ++ le64 e.2.count ++ le64 (avgLatencyNs e.2) ++ le64 (minLatencyNs e.2)
    ++ le64 e.2.maxLatencyNs

/-- The bytes of chunk `c`. -/
def chunkBytes (s : ScriptSnapshot) (chunkCount c : Nat) (part : List (Str × ScriptStats)) :
    List UInt8 :=
  le64 s.timestampNs ++ [UInt8.ofNat c] ++ [UInt8.ofNat chunkCount]
    ++ le16 (UInt16.ofNat part.length) ++ part.flatMap entryBytes

/-- The entries of each chunk. -/
def parts (P : Nat) (s : ScriptSnapshot) : List (List (Str × ScriptStats)) :=
  splitLoop (maxEntries P) s.entries (s.chunkCount P) 0

/-- The chunks; none when no script was called. -/
def pack (P : Nat) (s : ScriptSnapshot) : Option (List (List UInt8)) :=
  if s.entries.isEmpty then none
  else some ((s.parts P).mapIdx fun c part => s.chunkBytes (s.chunkCount P) c part)

end ScriptSnapshot

/-! ## The counters -/

namespace Telemetry

def takeCounts (counts : UMap Str UInt64) : UMap Str UInt64 :=
  counts.collect fun _ val => if val > 0 then some val else none

def zeroCounts (counts : UMap Str UInt64) : UMap Str UInt64 := counts.collect fun _ _ => some 0

def sumCounts (counts : UMap Str UInt64) : UInt64 :=
  counts.toPairs.foldl (fun total kv => total + kv.2) 0

/-- `combined[k] += v` for every entry. -/
def addCounts (combined counts : UMap Str UInt64) : UMap Str UInt64 :=
  counts.toPairs.foldl (fun m kv => m.insert kv.1 (UMap.getD m kv.1 0 + kv.2)) combined

def streamSnapshot (tel : Telemetry) (timestampNs : UInt64) : StreamSnapshot where
  timestampNs := timestampNs
  totalEvents := sumCounts (takeCounts tel.eventCounts)
  totalEmitted := sumCounts (takeCounts tel.emittedCounts)
  drops := tel.drops
  entries :=
    (addCounts (addCounts ∅ (takeCounts tel.eventCounts)) (takeCounts tel.emittedCounts)).toPairs

/-- The chunks of the stream counters, and the counters after the exchange. -/
def packStreamMetrics (P : Nat) (tel : Telemetry) (timestampNs : UInt64) :
    Option (List (List UInt8)) × Telemetry :=
  ((tel.streamSnapshot timestampNs).pack P,
    { tel with
      eventCounts := zeroCounts tel.eventCounts
      emittedCounts := zeroCounts tel.emittedCounts
      drops := 0 })

/-- A zero timestamp is replaced by `now`. -/
def scriptSnapshot (tel : Telemetry) (timestampNs now : UInt64) : ScriptSnapshot where
  timestampNs := if timestampNs = 0 then now else timestampNs
  entries := tel.scriptStats.toPairs.filter fun kv => kv.2.count > 0

/-- The chunks of the script statistics, and the statistics after the exchange. -/
def packScriptMetrics (P : Nat) (tel : Telemetry) (timestampNs now : UInt64) :
    Option (List (List UInt8)) × Telemetry :=
  ((tel.scriptSnapshot timestampNs now).pack P,
    { tel with scriptStats := tel.scriptStats.collect fun _ _ => some {} })

end Telemetry

/-! ## Events -/

/-- The event a chunk is sent in; a chunk longer than the payload is logged and dropped. -/
def metricsEvent (P : Nat) (now : UInt64) (schema : Str) (chunk : List UInt8) :
    Option (Event P) :=
  let ev : Event P := { timestampNs := now }
  let ev := ev.setStream (lit "telemetry")
  let ev := ev.setSchema schema
  match ev.setPayload chunk with
  | (true, ev) => some ev
  | (false, _) => none

def metricsEvents (P : Nat) (now : UInt64) (schema : Str) (chunks : List (List UInt8)) :
    List (Event P) :=
  chunks.filterMap (metricsEvent P now schema)

def streamsSchema : Str := lit "streams_v1"

def scriptsSchema : Str := lit "scripts_v1"

/-- The server's own events are no re-injections. -/
theorem lineageDepth_of_mem_metricsEvents {P : Nat} {now : UInt64} {schema : Str}
    {chunks : List (List UInt8)} {ev : Event P} (h : ev ∈ metricsEvents P now schema chunks) :
    ev.lineageDepth = 0 := by
  obtain ⟨chunk, -, hev⟩ := List.mem_filterMap.mp h
  rw [metricsEvent, Event.setPayload] at hev
  by_cases hlong : chunk.length > P
  · rw [if_pos hlong] at hev
    cases hev
  · rw [if_neg hlong] at hev
    cases hev
    rfl

/-! ## The chunk split -/

section Split
variable {α : Type} {maxEntries : Nat} {entries : List α}

@[simp] theorem length_splitLoop (rounds idx : Nat) :
    (splitLoop maxEntries entries rounds idx).length = rounds := by
  induction rounds generalizing idx with
  | zero => rfl
  | succ rounds ih => rw [splitLoop, List.length_cons, ih]

theorem length_le_of_mem_splitLoop {rounds idx : Nat} {part : List α}
    (h : part ∈ splitLoop maxEntries entries rounds idx) : part.length ≤ maxEntries := by
  induction rounds generalizing idx with
  | zero => cases h
  | succ rounds ih =>
      rcases List.mem_cons.mp h with rfl | h
      · exact (List.length_take_le _ _).trans (Nat.min_le_left _ _)
      · exact ih h

/-- Enough rounds leave no entry out and take none twice. -/
theorem flatten_splitLoop (rounds idx : Nat) (h : entries.length ≤ idx + rounds * maxEntries) :
    (splitLoop maxEntries entries rounds idx).flatten = entries.drop idx := by
  induction rounds generalizing idx with
  | zero =>
      rw [Nat.zero_mul, Nat.add_zero] at h
      rw [List.drop_eq_nil_of_le h]
      rfl
  | succ rounds ih =>
      rw [Nat.add_mul, Nat.one_mul] at h
      rw [splitLoop, List.flatten_cons, ih]
      · rw [← List.drop_drop]
        exact List.take_append_drop _ _
      · rcases Nat.le_total maxEntries (entries.length - idx) with hle | hle
        · rw [Nat.min_eq_left hle]
          omega
        · rw [Nat.min_eq_right hle]
          omega

end Split

theorem le_ceilDiv_mul {total maxEntries : Nat} (h : 0 < maxEntries) :
    total ≤ ceilDiv total maxEntries * maxEntries := by
  have hlt := Nat.lt_div_mul_add h (a := total + maxEntries - 1)
  unfold ceilDiv
  omega

namespace StreamSnapshot
variable {P : Nat}

theorem maxEntries_eq (hP : 36 ≤ P) : maxEntries P = (P - 36) / 40 := by
  unfold maxEntries
  rw [sizeSub_of_le (show headerSize ≤ P from hP)]
  rfl

theorem maxEntries_pos (hP : 76 ≤ P) : 0 < maxEntries P := by
  rw [maxEntries_eq (by omega)]
  omega

@[simp] theorem length_parts (s : StreamSnapshot) : (s.parts P).length = s.chunkCount P :=
  length_splitLoop _ _

theorem flatten_parts (hmax : 0 < maxEntries P) (s : StreamSnapshot) :
    (s.parts P).flatten = s.entries := by
  refine flatten_splitLoop _ 0 ?_
  rw [chunkCount, Nat.zero_add]
  split
  · omega
  · exact le_ceilDiv_mul hmax

theorem chunkCount_pos (hP : 76 ≤ P) (s : StreamSnapshot) : 0 < s.chunkCount P := by
  have hmax := maxEntries_pos hP
  unfold chunkCount
  split
  · exact Nat.one_pos
  · exact Nat.div_pos (by omega) hmax

theorem pack_eq_some {s : StreamSnapshot} {chunks : List (List UInt8)} :
    s.pack P = some chunks ↔
      (s.parts P).mapIdx (fun c part => s.chunkBytes (s.chunkCount P) c part) = chunks ∧
        ¬ (s.entries.isEmpty && s.drops == 0) = true := by
  unfold pack
  split <;> simp [*]

theorem length_of_pack {s : StreamSnapshot} {chunks : List (List UInt8)}
    (h : s.pack P = some chunks) : chunks.length = s.chunkCount P := by
  rw [← (pack_eq_some.mp h).1, List.length_mapIdx, length_parts]

end StreamSnapshot

namespace ScriptSnapshot
variable {P : Nat}

theorem maxEntries_eq (hP : 12 ≤ P) : maxEntries P = (P - 12) / 64 := by
  unfold maxEntries
  rw [sizeSub_of_le (show headerSize ≤ P from hP)]
  rfl

theorem maxEntries_pos (hP : 76 ≤ P) : 0 < maxEntries P := by
  rw [maxEntries_eq (by omega)]
  omega

@[simp] theorem length_parts (s : ScriptSnapshot) : (s.parts P).length = s.chunkCount P :=
  length_splitLoop _ _

theorem flatten_parts (hmax : 0 < maxEntries P) (s : ScriptSnapshot) :
    (s.parts P).flatten = s.entries := by
  refine flatten_splitLoop _ 0 ?_
  rw [chunkCount, Nat.zero_add]
  exact le_ceilDiv_mul hmax

theorem chunkCount_pos (hP : 76 ≤ P) {s : ScriptSnapshot} (h : s.entries ≠ []) :
    0 < s.chunkCount P := by
  have hmax := maxEntries_pos hP
  have hlen := List.length_pos_of_ne_nil h
  exact Nat.div_pos (by omega) hmax

theorem pack_eq_some {s : ScriptSnapshot} {chunks : List (List UInt8)} :
    s.pack P = some chunks ↔
      (s.parts P).mapIdx (fun c part => s.chunkBytes (s.chunkCount P) c part) = chunks ∧
        s.entries ≠ [] := by
  unfold pack
  split <;> simp_all

theorem length_of_pack {s : ScriptSnapshot} {chunks : List (List UInt8)}
    (h : s.pack P = some chunks) : chunks.length = s.chunkCount P := by
  rw [← (pack_eq_some.mp h).1, List.length_mapIdx, length_parts]

end ScriptSnapshot

end Mawmaw.Core
