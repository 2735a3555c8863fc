import Mawmaw.Core.StreamRouter
import Mawmaw.Executor.WasmCodec

/-!
# Python scripts

Events as Python dictionaries.

* `PyObject`, `PyDict` : the values the marshalling stores and checks for;
* `eventToPydict`, `pydictToEvent`, `invokeSnapshot` : `PythonScript`;
* `IdField` : a NUL-terminated field with a valid UTF-8 string and zeros;
* `pydict_round_trip_iff` : what the dictionary gives back is the event exactly if its lineage
  depth is 0.
-/

namespace Mawmaw.Executor
open Mawmaw.Lib Mawmaw.Core

variable {P : Nat}

/-! ## Python values -/

/-- `other` is anything the marshalling does not look into. -/
inductive PyObject
  | str (s : String)
  | int (n : Int)
  | bytes (bs : List UInt8)
  | other

abbrev PyDict := UMap Str PyObject

/-- The UTF-8 bytes of a string. -/
def utf8 (s : String) : Str := s.toByteArray.data.toList

/-- `PyUnicode_FromString` of a NUL-terminated buffer; null if it is not valid UTF-8. -/
def unicodeFromString (buf : List UInt8) : Option String :=
  String.fromUTF8? (ByteArray.mk (cstr buf).toArray)

/-- `PyLong_AsUnsignedLongLong`; all ones with an exception for what does not fit. -/
def asUnsignedLongLong (n : Int) : UInt64 :=
  if 0 ≤ n ∧ n < 2 ^ 64 then UInt64.ofNat n.toNat else uint64Max

/-- `PyDict_SetItemString`, which refuses a null value. -/
def setItemString (d : PyDict) (key : Str) (v : Option PyObject) : PyDict :=
  match v with
  | none => d
  | some v => d.insert key v

/-! ## Marshalling -/

def eventToPydict (ev : Event P) : PyDict :=
  let d : PyDict := ∅
  let d := setItemString d (lit "stream_id") ((unicodeFromString ev.streamId.toList).map .str)
  let d := setItemString d (lit "schema_id") ((unicodeFromString ev.schemaId.toList).map .str)
  let d := setItemString d (lit "sequence") (some (.int ev.sequence.toNat))
  let d := setItemString d (lit "timestamp_ns") (some (.int ev.timestampNs.toNat))
  let d := setItemString d (lit "lineage_depth") (some (.int ev.lineageDepth.toNat))
  setItemString d (lit "payload") (some (.bytes ev.bytes))

def getStr {n : Nat} (d : PyDict) (key : Str) (dst : Vector UInt8 n) (max : Nat) :
    Vector UInt8 n :=
  match d.lookup key with
  | some (.str s) => strncpy dst (utf8 s) (max - 1)
  | _ => dst

def getU64 (d : PyDict) (key : Str) : UInt64 :=
  match d.lookup key with
  | some (.int n) => asUnsignedLongLong n
  | _ => 0

def pydictToEvent (d : PyDict) : Event P :=
  let ev : Event P := {}
  let ev := { ev with
    streamId := getStr d (lit "stream_id") ev.streamId streamIdMax
    schemaId := getStr d (lit "schema_id") ev.schemaId schemaIdMax
    sequence := getU64 d (lit "sequence")
    timestampNs := getU64 d (lit "timestamp_ns") }
  match d.lookup (lit "payload") with
  | some (.bytes bs) => (ev.setPayload bs).2
  | _ => ev

/-- What `on_trigger` returns: an exception, something that is no list, or a list; its items that
are no dictionaries are `none`. -/
inductive PyResult
  | raised
  | noList
  | list (items : List (Option PyDict))

/-- The windows as Python sees them; a key that is not valid UTF-8 is refused. -/
def pyWindows (windows : UMap Str (List (Event P))) : UMap String (List PyDict) :=
  windows.toPairs.foldl (fun py w =>
    match unicodeFromString w.1 with
    | none => py
    | some sid => py.insert sid (w.2.map eventToPydict)) ∅

/-- `invoke_snapshot` of a script whose module defines `on_trigger`. -/
def invokeSnapshot (onTrigger : PyDict → UMap String (List PyDict) → PyResult)
    (input : SnapshotInput P) : ScriptOutput P :=
  match onTrigger (eventToPydict input.triggerEvent) (pyWindows input.windows) with
  | .raised => {}
  | .noList => {}
  | .list items => { emitted := items.filterMap fun item => item.map pydictToEvent }

/-! ## What is lost -/

/-- No dictionary gives an event a lineage depth. -/
theorem pydictToEvent_lineageDepth (d : PyDict) :
    (pydictToEvent d : Event P).lineageDepth = 0 := by
  unfold pydictToEvent
  dsimp only
  split
  · unfold Event.setPayload
    split <;> rfl
  · rfl

theorem invokeSnapshot_lineageDepth (onTrigger : PyDict → UMap String (List PyDict) → PyResult)
    (input : SnapshotInput P) : ∀ ev ∈ (invokeSnapshot onTrigger input).emitted,
      ev.lineageDepth = 0 := by
  intro ev hev
  unfold invokeSnapshot at hev
  split at hev
  · exact absurd hev List.not_mem_nil
  · exact absurd hev List.not_mem_nil
  · obtain ⟨item, -, hitem⟩ := List.mem_filterMap.mp hev
    obtain ⟨d, -, rfl⟩ := Option.map_eq_some_iff.mp hitem
    exact pydictToEvent_lineageDepth d

/-! ## Round trip -/

/-- The field holds the UTF-8 bytes of `s`, at least one NUL and nothing else. -/
def IdField (field : List UInt8) (s : String) : Prop :=
  NulFree (utf8 s) ∧ ∃ k, field = utf8 s ++ List.replicate (k + 1) 0

theorem fromUTF8_utf8 (s : String) : String.fromUTF8? (ByteArray.mk (utf8 s).toArray) = some s := by
  have hbytes : ByteArray.mk (utf8 s).toArray = s.toByteArray := by
    unfold utf8
    rw [Array.toArray_toList]
  rw [hbytes]
  simp only [String.fromUTF8?, dif_pos s.isValidUTF8]
  rfl

namespace IdField
variable {field : List UInt8} {s : String}

theorem cstr_eq (h : IdField field s) : cstr field = utf8 s := by
  obtain ⟨hnul, k, rfl⟩ := h
  rw [List.replicate_succ]
  exact cstr_append_zero hnul _

theorem unicodeFromString_eq (h : IdField field s) : unicodeFromString field = some s := by
  rw [unicodeFromString, h.cstr_eq]
  exact fromUTF8_utf8 s

/-- Copying the string into a zeroed field of the same size gives the field back. -/
theorem strncpy_eq {n : Nat} {v : Vector UInt8 n} (h : IdField v.toList s) :
    strncpy (Vector.replicate n 0) (utf8 s) (n - 1) = v := by
  obtain ⟨hnul, k, hfield⟩ := h
  have hlen := congrArg List.length hfield
  rw [Vector.length_toList, List.length_append, List.length_replicate] at hlen
  apply Vector.toList_inj.mp
  have htake : (cstr (utf8 s)).take (n - 1) = utf8 s := by
    rw [cstr_eq_self hnul]
    apply List.take_of_length_le
    omega
  rw [toList_strncpy_zero (utf8 s) (n - 1) (Nat.sub_le n 1), htake, hfield]
  congr 2
  omega

end IdField

theorem asUnsignedLongLong_toNat (n : UInt64) : asUnsignedLongLong n.toNat = n := by
  have hlt := n.toNat_lt
  rw [asUnsignedLongLong, if_pos ⟨by omega, by omega⟩, Int.toNat_natCast, UInt64.ofNat_toNat]

/-- The entries of an event's dictionary that are read back. -/
theorem lookup_eventToPydict {ev : Event P} {stream schema : String}
    (hstream : IdField ev.streamId.toList stream) (hschema : IdField ev.schemaId.toList schema) :
    (eventToPydict ev).lookup (lit "stream_id") = some (.str stream) ∧
    (eventToPydict ev).lookup (lit "schema_id") = some (.str schema) ∧
    (eventToPydict ev).lookup (lit "sequence") = some (.int ev.sequence.toNat) ∧
    (eventToPydict ev).lookup (lit "timestamp_ns") = some (.int ev.timestampNs.toNat) ∧
    (eventToPydict ev).lookup (lit "payload") = some (.bytes ev.bytes) := by
  simp only [eventToPydict, hstream.unicodeFromString_eq, hschema.unicodeFromString_eq,
    Option.map_some, setItemString]
  refine ⟨?_, ?_, ?_, ?_, AList.lookup_insert _⟩ <;>
    simp (disch := decide) only [AList.lookup_insert_ne, AList.lookup_insert]

/-- **The dictionary round trip.** An event whose identifiers are terminated UTF-8 and whose payload
fits comes back from its dictionary with every field exactly if its lineage depth is 0. -/
theorem pydict_round_trip_iff (ev : Event P) (stream schema : String)
    (hstream : IdField ev.streamId.toList stream) (hschema : IdField ev.schemaId.toList schema)
    (hpayload : ev.payloadSize.toNat ≤ P) :
    Agrees ev (pydictToEvent (eventToPydict ev)) ↔ ev.lineageDepth = 0 := by
  obtain ⟨h₁, h₂, h₃, h₄, h₅⟩ := lookup_eventToPydict hstream hschema
  have hlen := Event.length_bytes hpayload
  have hfields : (pydictToEvent (eventToPydict ev) : Event P)
      = (Event.setPayload { ({} : Event P) with
          streamId := ev.streamId
          schemaId := ev.schemaId
          sequence := ev.sequence
          timestampNs := ev.timestampNs } ev.bytes).2 := by
    simp only [pydictToEvent, getStr, getU64, h₁, h₂, h₃, h₄, h₅, asUnsignedLongLong_toNat]
    rw [hstream.strncpy_eq, hschema.strncpy_eq]
  constructor
  · intro hagrees
    rw [← hagrees.lineageDepth]
    exact pydictToEvent_lineageDepth _
  · intro hdepth
    have hfit : ¬ ev.bytes.length > P := by omega
    rw [hfields]
    refine ⟨?_, ?_, ?_, ?_, ?_, ?_, ?_⟩
    · rw [Event.setPayload, if_neg hfit]
    · rw [Event.setPayload, if_neg hfit]
    · rw [Event.setPayload, if_neg hfit, hdepth]
    · rw [Event.setPayload_payloadSize _ _ (by omega), hlen, UInt16.ofNat_toNat]
    · rw [Event.setPayload, if_neg hfit]
    · rw [Event.setPayload, if_neg hfit]
    · exact Event.setPayload_bytes _ _ (by omega) (by rw [hlen]; exact ev.payloadSize.toNat_lt)

theorem idField_empty (n : Nat) : IdField (Vector.replicate (n + 1) 0).toList "" :=
  ⟨fun b hb => absurd hb List.not_mem_nil, n, by simp [utf8]⟩

/-- An event of stream `mété` and schema `json` with three bytes of payload. -/
def meteoEvent : Event 4 :=
  (((({ timestampNs := 1700000000000000000, sequence := 7 } : Event 4).setStream
    [109, 195, 169, 116, 195, 169]).setSchema (lit "json")).setPayload [0, 255, 3]).2

theorem meteoEvent_stream : IdField meteoEvent.streamId.toList "mété" :=
  ⟨by decide +kernel, 25, by decide +kernel⟩

theorem meteoEvent_schema : IdField meteoEvent.schemaId.toList "json" :=
  ⟨by decide +kernel, 11, by decide +kernel⟩

theorem pydict_round_trip_iff_meteo : Agrees meteoEvent (pydictToEvent (eventToPydict meteoEvent)) :=
  (pydict_round_trip_iff meteoEvent "mété" "json" meteoEvent_stream meteoEvent_schema
    (by decide +kernel)).mpr (by decide +kernel)

/-- An event that was re-injected once. -/
theorem lineage_depth_lost :
    ¬ ∀ (ev : Event 4) (stream schema : String), IdField ev.streamId.toList stream →
      IdField ev.schemaId.toList schema → ev.payloadSize.toNat ≤ 4 →
      Agrees ev (pydictToEvent (eventToPydict ev)) := by
  intro h
  have hagrees := h { lineageDepth := 1 } "" "" (idField_empty 31) (idField_empty 15) (by decide)
  have hdepth := hagrees.lineageDepth
  rw [pydictToEvent_lineageDepth] at hdepth
  exact absurd hdepth (by decide)

end Mawmaw.Executor
