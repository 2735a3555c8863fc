import Mawmaw.Core.WindowBounds
import Mawmaw.Executor.WasmScript

/-!
# The request zone

* `encRequest` : the bytes of a request (`serialize_eq`);
* `requestSize` : their number, from the sizes of the payloads;
* `InZone` : every store below `IO_BUF_SIZE`, so inside the memory;
* `invokeZeroCopy_inZone_iff` : a call stays in its zone exactly when the request fits it.
-/

namespace Mawmaw.Executor
open Mawmaw.Lib Mawmaw.Core

variable {P : Nat}

/-! ## The bytes of a request -/

def encWindow (rings : UMap Str (StreamRing P)) (win : Str × RingView) : List UInt8 :=
  (strncpy (Vector.replicate streamIdMax 0) win.1 (streamIdMax - 1)).toList
    ++ le32 win.2.size.toUInt32 ++ encEvents (viewEvents rings win.1 win.2)

def encRequest (input : ZeroCopyInput P) (rings : UMap Str (StreamRing P)) : List UInt8 :=
  encEvent input.triggerEvent ++ le32 (UInt32.ofNat input.windows.toPairs.length)
    ++ input.windows.toPairs.flatMap (encWindow rings)

theorem writeWindow_eq (rings : UMap Str (StreamRing P)) (w : WritePtr) (win : Str × RingView) :
    writeWindow rings w win.1 win.2 = w.put (encWindow rings win) := by
  rw [writeWindow, foldl_wevPtr, WritePtr.w32Ptr, WritePtr.put_put, WritePtr.put_put, encWindow,
    List.append_assoc]

theorem foldl_writeWindow (rings : UMap Str (StreamRing P)) (w : WritePtr)
    (wins : List (Str × RingView)) :
    wins.foldl (fun w win => writeWindow rings w win.1 win.2) w
      = w.put (wins.flatMap (encWindow rings)) := by
  induction wins generalizing w with
  | nil => exact (w.put_nil).symm
  | cons win wins ih =>
      rw [List.foldl_cons, ih, writeWindow_eq, WritePtr.put_put, List.flatMap_cons]

theorem serialize_eq (input : ZeroCopyInput P) (rings : UMap Str (StreamRing P)) :
    serialize input rings = ({} : WritePtr).put (encRequest input rings) := by
  rw [serialize, foldl_writeWindow, wevPtr_eq, WritePtr.w32Ptr, WritePtr.put_put, WritePtr.put_put,
    encRequest, List.append_assoc]

/-! ## The size of a request -/

def eventSize (e : Event P) : Nat := headerSize + e.payloadSize.toNat

/-- The bytes a window of the given events takes. -/
def windowSize (es : List (Event P)) : Nat := streamIdMax + 4 + (es.map eventSize).sum

/-- The bytes a request takes: the trigger, the number of windows, the windows. -/
def requestSize (input : ZeroCopyInput P) (rings : UMap Str (StreamRing P)) : Nat :=
  eventSize input.triggerEvent + 4
    + (input.windows.toPairs.map fun win => windowSize (viewEvents rings win.1 win.2)).sum

/-- Every event of the request, the trigger and those of the windows, has at most `PAYLOAD_MAX`
bytes of payload. -/
def PayloadsFit (input : ZeroCopyInput P) (rings : UMap Str (StreamRing P)) : Prop :=
  input.triggerEvent.payloadSize.toNat ≤ P ∧
    ∀ win ∈ input.windows.toPairs, ∀ e ∈ viewEvents rings win.1 win.2, e.payloadSize.toNat ≤ P

theorem length_encWindow {rings : UMap Str (StreamRing P)} {win : Str × RingView}
    (hP : ∀ e ∈ viewEvents rings win.1 win.2, e.payloadSize.toNat ≤ P) :
    (encWindow rings win).length = windowSize (viewEvents rings win.1 win.2) := by
  rw [encWindow, List.length_append, List.length_append, Vector.length_toList, length_le32,
    length_encEvents hP]
  rfl

theorem length_encRequest {input : ZeroCopyInput P} {rings : UMap Str (StreamRing P)}
    (hP : PayloadsFit input rings) : (encRequest input rings).length = requestSize input rings := by
  have hwins : (input.windows.toPairs.flatMap (encWindow rings)).length
      = (input.windows.toPairs.map fun win => windowSize (viewEvents rings win.1 win.2)).sum := by
    rw [List.length_flatMap]
    exact congrArg List.sum (List.map_congr_left fun win hwin => length_encWindow (hP.2 win hwin))
  rw [encRequest, List.length_append, List.length_append, length_encEvent hP.1, length_le32, hwins]
  rfl

/-! ## The zone -/

/-- Every store is below `IO_BUF_SIZE`, and so inside the memory. -/
def InZone (mem : List UInt8) (inv : Invocation P) : Prop :=
  ∀ s ∈ inv.stores, s.2 < ioBufSize ∧ s.2 < mem.length

/-- On a memory large enough, a call makes the stores of the request, whatever becomes of it. -/
theorem invokeZeroCopy_stores {engine : Engine} {mem : List UInt8} (input : ZeroCopyInput P)
    (rings : UMap Str (StreamRing P)) (hmem : engine.memory = some mem)
    (hsize : ioBufSize * 2 ≤ mem.length) :
    (invokeZeroCopy engine input rings).stores = (encRequest input rings).zipIdx := by
  have hstores : (serialize input rings).stores = (encRequest input rings).zipIdx := by
    rw [serialize_eq]
    exact List.nil_append _
  rw [← hstores, invokeZeroCopy, hmem]
  simp only
  rw [if_neg (by omega)]
  split
  · rfl
  · split
    · rfl
    · unfold receive
      split <;> rfl

/-- Bytes stored from offset 0 on stay below a bound exactly when there are no more of them. -/
theorem forall_zipIdx_lt_iff (bs : List UInt8) (n : Nat) :
    (∀ s ∈ bs.zipIdx, s.2 < n) ↔ bs.length ≤ n := by
  refine ⟨?_, ?_⟩
  · intro h
    by_contra hlt
    have hn : n < bs.zipIdx.length := by rw [List.length_zipIdx]; omega
    have := h _ (List.getElem_mem hn)
    simp at this
  · intro h s hs
    have := List.snd_lt_of_mem_zipIdx hs
    omega

theorem inZone_iff_length {engine : Engine} {mem : List UInt8} (input : ZeroCopyInput P)
    (rings : UMap Str (StreamRing P)) (hmem : engine.memory = some mem)
    (hsize : ioBufSize * 2 ≤ mem.length) :
    InZone mem (invokeZeroCopy engine input rings) ↔
      (encRequest input rings).length ≤ ioBufSize := by
  rw [InZone, invokeZeroCopy_stores input rings hmem hsize, ← forall_zipIdx_lt_iff]
  refine ⟨?_, ?_⟩
  · intro h s hs
    exact (h s hs).1
  · intro h s hs
    have := h s hs
    omega

/-- **The request zone.** A call on the input of any registry keeps its stores in the zone exactly
when the request fits it. -/
theorem invokeZeroCopy_inZone_iff (engine : Engine) (mem : List UInt8) (reg : WindowRegistry P)
    (trigger : Event P) (subs : UMap Str WindowSpec) (hmem : engine.memory = some mem)
    (hsize : ioBufSize * 2 ≤ mem.length)
    (hP : PayloadsFit (reg.makeZeroCopyInput trigger subs) reg.rings) :
    InZone mem (invokeZeroCopy engine (reg.makeZeroCopyInput trigger subs) reg.rings) ↔
      requestSize (reg.makeZeroCopyInput trigger subs) reg.rings ≤ ioBufSize := by
  rw [inZone_iff_length _ _ hmem hsize, length_encRequest hP]

/-- A script that returns nothing, on a memory of two zones. -/
def silentEngine : Engine where
  memory := some (List.replicate (ioBufSize * 2) 0)
  call := fun mem _ _ _ _ => some (0, mem)

/-- Five events on the streams `s` and `t`, with payloads of up to three bytes. -/
def pushedEvents : List (Event 8) :=
  [(lit "s", [1]), (lit "t", [2, 3]), (lit "s", []), (lit "t", [4, 5, 6]), (lit "s", [7, 8])].map
    fun d => ((({ timestampNs := 3 } : Event 8).setStream d.1).setPayload d.2).2

/-- The registry after them, with rings of two slots. -/
def twoStreams : WindowRegistry 8 :=
  ((({} : WindowRegistry 8).ensureStream (lit "s") .two).ensureStream (lit "t")
    .two).pushAll pushedEvents

/-- The last two events of each. -/
def twoSubs : UMap Str WindowSpec :=
  (AList.singleton (lit "s") { count := 2 }).insert (lit "t") { count := 2 }

theorem payloadsFit_twoStreams :
    PayloadsFit (twoStreams.makeZeroCopyInput { timestampNs := 5 } twoSubs) twoStreams.rings := by
  unfold PayloadsFit
  decide +kernel

theorem invokeZeroCopy_inZone_iff_two :
    InZone (List.replicate (ioBufSize * 2) 0) (invokeZeroCopy silentEngine
      (twoStreams.makeZeroCopyInput { timestampNs := 5 } twoSubs) twoStreams.rings) :=
  (invokeZeroCopy_inZone_iff silentEngine (List.replicate (ioBufSize * 2) 0) twoStreams
    { timestampNs := 5 } twoSubs rfl (le_of_eq List.length_replicate.symm)
    payloadsFit_twoStreams).mpr (by decide +kernel)

/-! ## A request that leaves the zone -/

def streamEvent : Event 256 := ({} : Event 256).setStream (lit "s")

/-- The registry after `n` pushes to stream `s`. -/
def filledRegistry (n : Nat) : WindowRegistry 256 :=
  (({} : WindowRegistry 256).ensureStream (lit "s")).pushAll (List.replicate n streamEvent)

def wideSubs : UMap Str WindowSpec := AList.singleton (lit "s") { count := 1000 }

theorem filledRegistry_ring (n : Nat) : (filledRegistry n).rings.lookup (lit "s")
    = some ⟨lit "s", (RingBuffer.new defaultStreamCapacity).writeAll
        (List.replicate n streamEvent)⟩ := by
  have hstream : streamEvent.stream = lit "s" := by decide
  have hring : (({} : WindowRegistry 256).ensureStream (lit "s")).rings.lookup (lit "s")
      = some ⟨lit "s", RingBuffer.new defaultStreamCapacity⟩ := AList.lookup_insert ∅
  exact WindowRegistry.lookup_pushAll (List.replicate n streamEvent)
    (fun ev hev => by rw [List.eq_of_mem_replicate hev, hstream]) hring

theorem filledRegistry_holds (n : Nat) : RingBuffer.Holds
    ((RingBuffer.new defaultStreamCapacity).writeAll (List.replicate n streamEvent))
    (List.replicate n streamEvent) :=
  (RingBuffer.holds_new defaultStreamCapacity).writeAll (List.replicate n streamEvent)

theorem filledRegistry_windows (n : Nat) (hn : UInt64.ofNat n = 1000) :
    ((filledRegistry n).makeZeroCopyInput {} wideSubs).windows.toPairs
      = [(lit "s", ⟨0, 1000⟩)] := by
  have hhead := (filledRegistry_holds n).seq
  rw [List.length_replicate, hn] at hhead
  have hsubs : wideSubs.entries = [⟨lit "s", { count := 1000 }⟩] := rfl
  simp [WindowRegistry.makeZeroCopyInput, UMap.collect, AList.foldl, hsubs,
    filledRegistry_ring, windowBounds, computeBegin, RingBuffer.head, hhead, UMap.toPairs]

theorem filledRegistry_events (n : Nat) (hn : UInt64.ofNat n = 1000) :
    viewEvents (filledRegistry n).rings (lit "s") ⟨0, 1000⟩ = List.replicate 1000 streamEvent := by
  have hhead := (filledRegistry_holds n).seq
  rw [List.length_replicate, hn] at hhead
  rw [viewEvents, filledRegistry_ring]
  refine List.eq_replicate_iff.mpr ⟨?_, fun e he => ?_⟩
  · rw [RingView.length_events]
    · rfl
    · rw [RingBuffer.head, hhead]
      exact UInt64.le_refl _
  · exact List.eq_of_mem_replicate (RingView.mem_of_mem_events (filledRegistry_holds n) he)

/-- A window of 1000 events without payload does not fit the zone, and is written all the same. -/
theorem invokeZeroCopy_count_1000 :
    PayloadsFit ((filledRegistry 1000).makeZeroCopyInput {} wideSubs) (filledRegistry 1000).rings ∧
      ¬ InZone (List.replicate (ioBufSize * 2) 0) (invokeZeroCopy silentEngine
        ((filledRegistry 1000).makeZeroCopyInput {} wideSubs) (filledRegistry 1000).rings) := by
  have hfit : PayloadsFit ((filledRegistry 1000).makeZeroCopyInput {} wideSubs)
      (filledRegistry 1000).rings := by
    refine ⟨Nat.zero_le _, fun win hwin e he => ?_⟩
    rw [filledRegistry_windows _ rfl, List.mem_singleton] at hwin
    rw [hwin, filledRegistry_events _ rfl] at he
    rw [List.eq_of_mem_replicate he]
    exact Nat.zero_le _
  refine ⟨hfit, ?_⟩
  rw [inZone_iff_length _ _ rfl (le_of_eq List.length_replicate.symm), length_encRequest hfit,
    requestSize, filledRegistry_windows _ rfl, List.map_singleton, filledRegistry_events _ rfl,
    windowSize, List.map_replicate, List.sum_replicate_nat]
  decide

end Mawmaw.Executor
