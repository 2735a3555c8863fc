import Mawmaw.Core.Event
import Mawmaw.Core.RingBuffer
import Mawmaw.Lib.UMap

/-!
# The window registry

One ring for each stream, and the windows the script inputs are built from.

* `ensureStream`, `push`, `makeZeroCopyInput`, `makeSnapshotInput`, `registerScript`,
  `scriptBeginRead`, `canWrite` : the operations of `WindowRegistry`;
* `computeBegin`, `windowBounds` : the bounds of a window;
* `RingView.events` : the events a view's loop reads, one for each readable sequence number;
* `pushAll` : a stream's ring is the log of what was pushed to it.
-/

namespace Mawmaw.Core
open Mawmaw.Lib

variable {P : Nat}

inductive ScriptMode
  | zeroCopy
  | snapshot
  deriving DecidableEq, Repr

inductive WindowType
  | timeBased
  | countBased
  deriving DecidableEq, Repr

/-- A window specification: the last `count` events, or those of the last `durationNs`. -/
structure WindowSpec where
  type : WindowType := .countBased
  durationNs : UInt64 := 0
  count : UInt64 := 256
  deriving DecidableEq, Repr

/-- Input of zero-copy scripts: views into the rings, by stream. -/
structure ZeroCopyInput (P : Nat) where
  triggerEvent : Event P
  windows : UMap Str RingView

/-- Input of snapshot scripts: copies of the events, by stream. -/
structure SnapshotInput (P : Nat) where
  triggerEvent : Event P
  windows : UMap Str (List (Event P))

structure ScriptOutput (P : Nat) where
  emitted : List (Event P) := []
  deriving DecidableEq

structure StreamRing (P : Nat) where
  streamId : Str
  ring : RingBuffer (Event P)

/-- `telemetry` says whether a telemetry object is attached. -/
structure WindowRegistry (P : Nat) where
  rings : UMap Str (StreamRing P) := ∅
  scriptPositions : List UInt64 := []
  telemetry : Bool := false

/-- The default ring capacity, 65536. -/
def defaultStreamCapacity : Capacity := ⟨16, by decide⟩

/-! ## Window bounds -/

/-- The scan of a time window back from sequence number `begin`: it stops at the first event
older than `cutoff`. -/
def scanBack (ring : RingBuffer (Event P)) (cutoff : UInt64) : Nat → Nat
  | 0 => 0
  | b + 1 =>
    match ring.read (UInt64.ofNat b) with
    | none => b + 1
    | some e => if e.timestampNs < cutoff then b + 1 else scanBack ring cutoff b

/-- The oldest timestamp a time window admits. -/
def cutoff (spec : WindowSpec) (triggerTsNs : UInt64) : UInt64 :=
  if triggerTsNs > spec.durationNs then triggerTsNs - spec.durationNs else 0

/-- The start sequence of a window. -/
def computeBegin (ring : RingBuffer (Event P)) (head : UInt64) (spec : WindowSpec)
    (triggerTsNs : UInt64) : UInt64 :=
  if head = 0 then 0
  else
    match spec.type with
    | .countBased => if head ≥ spec.count then head - spec.count else 0
    | .timeBased => UInt64.ofNat (scanBack ring (cutoff spec triggerTsNs) head.toNat)

/-- The bounds both input builders compute for one subscribed stream. -/
def windowBounds (ring : RingBuffer (Event P)) (spec : WindowSpec) (triggerTsNs : UInt64) :
    RingView :=
  { beginSeq := computeBegin ring ring.head spec triggerTsNs, endSeq := ring.head }

/-- The sequence numbers `begin .. end - 1`, oldest first. -/
def RingView.seqs (v : RingView) : List UInt64 :=
  (List.range' v.beginSeq.toNat (v.endSeq.toNat - v.beginSeq.toNat)).map UInt64.ofNat

/-- The events a view's loop from `begin` to `end` reads from `ring`, oldest first. -/
def RingView.events (v : RingView) (ring : RingBuffer (Event P)) : List (Event P) :=
  v.seqs.filterMap ring.read

theorem RingView.length_events (v : RingView) (ring : RingBuffer (Event P))
    (h : v.endSeq ≤ ring.head) :
    (v.events ring).length = v.endSeq.toNat - v.beginSeq.toNat := by
  have hread : ∀ seq ∈ v.seqs, (ring.read seq).isSome := by
    intro seq hseq
    obtain ⟨i, hi, rfl⟩ := List.mem_map.mp hseq
    have hlt := v.endSeq.toNat_lt
    have hle := UInt64.le_iff_toNat_le.mp h
    rw [List.mem_range'_1] at hi
    rw [ring.read_of_lt]
    · rfl
    · rw [UInt64.toNat_ofNat', Nat.mod_eq_of_lt (by omega)]
      exact lt_of_lt_of_le (by omega) hle
  rw [events, List.length_filterMap_eq_countP, List.countP_eq_length.mpr hread, seqs,
    List.length_map, List.length_range']

theorem RingView.mem_of_mem_events {v : RingView} {ring : RingBuffer (Event P)}
    {hist : List (Event P)} (h : ring.Holds hist) {e : Event P} (he : e ∈ v.events ring) :
    e ∈ hist := by
  obtain ⟨seq, -, hread⟩ := List.mem_filterMap.mp he
  rcases Nat.lt_or_ge seq.toNat ring.writeSeq.toNat with hlt | hge
  · have hs : seq.toNat < hist.length := by
      rw [h.toNat_writeSeq] at hlt
      exact lt_of_lt_of_le hlt (Nat.mod_le _ _)
    rw [h.read hlt hs] at hread
    obtain rfl := Option.some.inj hread
    exact List.getElem_mem _
  · rw [ring.read_of_le hge] at hread
    cases hread

namespace WindowRegistry

/-- Creates the stream's ring unless it exists. -/
def ensureStream (reg : WindowRegistry P) (id : Str)
    (capacity : Capacity := defaultStreamCapacity) : WindowRegistry P :=
  match reg.rings.lookup id with
  | some _ => reg
  | none => { reg with rings := reg.rings.insert id ⟨id, RingBuffer.new capacity⟩ }

/-- The minimum position of all readers; 0 when there is none. -/
def getGlobalMinReader (reg : WindowRegistry P) : UInt64 :=
  let minSeq := reg.scriptPositions.foldl (fun m v => if v < m then v else m) 0xFFFFFFFFFFFFFFFF
  if minSeq = 0xFFFFFFFFFFFFFFFF then 0 else minSeq

/-- Whether the slowest reader is less than a lap behind. -/
def canWrite (reg : WindowRegistry P) (ring : RingBuffer (Event P)) : Bool :=
  ring.head - reg.getGlobalMinReader < UInt64.ofNat ring.capacity.size

/-- What one `push` does: the sequence number returned, whether `record_drop` was called, and the
registry after it. -/
structure Pushed (P : Nat) where
  seq : UInt64
  dropped : Bool
  registry : WindowRegistry P

/-- Writes the event into its stream's ring, if the stream has one. -/
def push (reg : WindowRegistry P) (ev : Event P) : Pushed P :=
  match reg.rings.lookup ev.stream with
  | none => { seq := 0, dropped := false, registry := reg }
  | some sr =>
    let w := sr.ring.write ev
    { seq := w.1
      dropped := reg.telemetry && !reg.canWrite sr.ring
      registry := { reg with rings := reg.rings.insert ev.stream { sr with ring := w.2 } } }

/-- Views of the subscribed streams that have a ring. -/
def makeZeroCopyInput (reg : WindowRegistry P) (trigger : Event P) (subs : UMap Str WindowSpec) :
    ZeroCopyInput P :=
  { triggerEvent := trigger
    windows := subs.collect fun sid spec =>
      (reg.rings.lookup sid).map fun sr => windowBounds sr.ring spec trigger.timestampNs }

/-- Copies of the subscribed streams' windows; `scriptIdx` is not used by the source either. -/
def makeSnapshotInput (reg : WindowRegistry P) (trigger : Event P) (subs : UMap Str WindowSpec)
    (_scriptIdx : Nat) : SnapshotInput P :=
  { triggerEvent := trigger
    windows := subs.collect fun sid spec =>
      (reg.rings.lookup sid).map fun sr =>
        (windowBounds sr.ring spec trigger.timestampNs).events sr.ring }

def registerScript (reg : WindowRegistry P) : Nat × WindowRegistry P :=
  (reg.scriptPositions.length, { reg with scriptPositions := reg.scriptPositions ++ [0] })

/-- Marks the start of a read. -/
def scriptBeginRead (reg : WindowRegistry P) (idx : Nat) (minSeq : UInt64) : WindowRegistry P :=
  { reg with scriptPositions := reg.scriptPositions.set idx minSeq }

/-- Marks the end of a read; the source keeps the position. -/
def scriptEndRead (reg : WindowRegistry P) (_idx : Nat) : WindowRegistry P := reg

theorem push_of_no_ring {reg : WindowRegistry P} {ev : Event P}
    (h : reg.rings.lookup ev.stream = none) : (reg.push ev).registry = reg := by
  simp [push, h]

theorem lookup_push {reg : WindowRegistry P} {ev : Event P} {sr : StreamRing P}
    (h : reg.rings.lookup ev.stream = some sr) :
    (reg.push ev).registry.rings.lookup ev.stream
      = some { sr with ring := (sr.ring.write ev).2 } := by
  simp [push, h]

def pushAll (reg : WindowRegistry P) (evs : List (Event P)) : WindowRegistry P :=
  evs.foldl (fun reg ev => (reg.push ev).registry) reg

theorem lookup_pushAll {s : Str} (evs : List (Event P)) (hs : ∀ ev ∈ evs, ev.stream = s)
    {reg : WindowRegistry P} {sr : StreamRing P} (h : reg.rings.lookup s = some sr) :
    (reg.pushAll evs).rings.lookup s = some { sr with ring := sr.ring.writeAll evs } := by
  induction evs generalizing reg sr with
  | nil => exact h
  | cons ev evs ih =>
      obtain rfl := hs ev (by simp)
      exact ih (fun e he => hs e (by simp [he])) (lookup_push h)

/-- A zero-copy window is there exactly for the subscribed streams that have a ring. -/
theorem lookup_makeZeroCopyInput (reg : WindowRegistry P) (trigger : Event P)
    (subs : UMap Str WindowSpec) (sid : Str) :
    (reg.makeZeroCopyInput trigger subs).windows.lookup sid
      = (subs.lookup sid).bind fun spec => (reg.rings.lookup sid).map fun sr =>
          windowBounds sr.ring spec trigger.timestampNs :=
  UMap.lookup_collect _ _ _

theorem lookup_makeSnapshotInput (reg : WindowRegistry P) (trigger : Event P)
    (subs : UMap Str WindowSpec) (idx : Nat) (sid : Str) :
    (reg.makeSnapshotInput trigger subs idx).windows.lookup sid
      = (subs.lookup sid).bind fun spec => (reg.rings.lookup sid).map fun sr =>
          (windowBounds sr.ring spec trigger.timestampNs).events sr.ring :=
  UMap.lookup_collect _ _ _

end WindowRegistry

end Mawmaw.Core
