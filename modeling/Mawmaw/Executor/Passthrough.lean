import Mawmaw.Executor.WasmRequest
import Mawmaw.Executor.WasmRoundTrip
import Mawmaw.Lib.LinearMemory

/-!
# The example script `passthrough.c`

The guest reads the trigger from the request and answers with one event on `wasm_processed` that has
its payload. The memory is that of the C source, apart from its stack and its literals.

* `onTrigger` : the guest; `onTrigger_eq` : it writes a well-formed response;
* `passthrough` : the engine with this guest; `after` : the memory a call leaves;
* `residue` : what calls leave of their payloads behind each other;
* `passthrough_emits` : what the host makes of every answer in a run of calls.
-/

namespace Mawmaw.Executor
open Mawmaw.Lib Mawmaw.Core

variable {P : Nat}

namespace Passthrough

/-! ## The guest -/

/-- `PAYLOAD_MAX` of the script. -/
def payloadMax : Nat := 256

def r64 (mem : List UInt8) (p : Nat) : Option UInt64 := (load mem p 8).map fun bs => orIn bs 0 0

def r32 (mem : List UInt8) (p : Nat) : Option UInt32 := (load mem p 4).map ofLE32

def r16 (mem : List UInt8) (p : Nat) : Option UInt16 := (load mem p 2).map ofLE16

def w64 (mem : List UInt8) (p : Nat) (v : UInt64) : Option (List UInt8) := store mem p (shiftOut 8 v)

def w32 (mem : List UInt8) (p : Nat) (v : UInt32) : Option (List UInt8) :=
  store mem p (shiftOut 4 v.toUInt64)

def w16 (mem : List UInt8) (p : Nat) (v : UInt16) : Option (List UInt8) :=
  store mem p [(v &&& 0xFF).toUInt8, ((v >>> 8) &&& 0xFF).toUInt8]

/-- `mc` of a literal, and zeros up to `size` bytes. -/
def putName (mem : List UInt8) (p : Nat) (name : Str) (size : Nat) : Option (List UInt8) := do
  let mem ← store mem p name
  store mem (p + name.length) (List.replicate (size - name.length) 0)

def streamName : Str := lit "wasm_processed"

def schemaName : Str := lit "wasm_v1"

/-- The bytes of the answer before the stream id. -/
def answerHeader : Nat := 4 + 8 + 8 + 4 + 2

/-- The timestamp in the payload, from which a latency is worked out that nothing uses. -/
def payloadTs (mem : List UInt8) (plen : UInt16) (payload : Nat) : Option UInt64 :=
  if 8 ≤ plen.toNat then r64 mem payload else some 0

/-- Packs the answer at `p`. -/
def packAnswer (mem : List UInt8) (p : Nat) (ts seq : UInt64) (lineage : UInt32) (plen : UInt16)
    (payload : Nat) : Option (List UInt8) := do
  let mem ← w32 mem p 1
  let mem ← w64 mem (p + 4) ts
  let mem ← w64 mem (p + 12) seq
  let mem ← w32 mem (p + 20) lineage
  let mem ← w16 mem (p + 24) plen
  let mem ← putName mem (p + 26) streamName streamIdMax
  let mem ← putName mem (p + 58) schemaName schemaIdMax
  copyBytes plen.toNat mem (p + 74) payload

/-- `on_trigger`: what it returns, and the memory; no result if it traps. -/
def onTrigger (mem : List UInt8) (inPtr _inLen outPtr outMax : UInt32) :
    Option (UInt32 × List UInt8) := do
  let p := inPtr.toNat
  let ts ← r64 mem p
  let seq ← r64 mem (p + 8)
  let lineage ← r32 mem (p + 16)
  let plen ← r16 mem (p + 20)
  let payload := p + 22 + streamIdMax + schemaIdMax
  if plen.toNat > payloadMax then some (0xFFFFFFFF, mem)
  else if outMax.toNat < answerHeader + streamIdMax + schemaIdMax + plen.toNat then
    some (0xFFFFFFFF, mem)
  else do
    let _ ← payloadTs mem plen payload
    let mem ← packAnswer mem outPtr.toNat ts seq lineage plen payload
    some (UInt32.ofNat (74 + plen.toNat), mem)

/-! ## What it reads and writes -/

theorem orIn_eq_ofLE64 {bs : List UInt8} (h : bs.length = 8) : orIn bs 0 0 = ofLE64 bs := by
  apply UInt64.toNat.inj
  rw [ofLE64, shiftIn_toNat bs (by omega), orIn_toNat bs 0 0 (by omega) (by decide), pow_zero,
    Nat.one_mul]
  exact Nat.zero_add _

theorem shiftOut_four (v : UInt32) : shiftOut 4 v.toUInt64 = le32 v := by
  rw [shiftOut_eq_toLE, le32_eq, UInt32.toNat_toUInt64]

theorem and_shift_toUInt8 (v : UInt16) : ((v >>> 8) &&& 0xFF).toUInt8 = (v >>> 8).toUInt8 := by
  apply UInt8.toNat.inj
  simp [and_255]

section Reads
variable (e : Event P) (following : List UInt8)

/-- The header of the event at the start of the memory. -/
theorem reads_header : r64 (encEvent e ++ following) 0 = some e.timestampNs ∧
    r64 (encEvent e ++ following) 8 = some e.sequence ∧
    r32 (encEvent e ++ following) 16 = some e.lineageDepth ∧
    r16 (encEvent e ++ following) 20 = some e.payloadSize := by
  have hlen : 70 ≤ (encEvent e ++ following).length := by
    rw [encEvent, List.length_append, List.length_append, length_encHeader, headerSize, streamIdMax,
      schemaIdMax]
    omega
  have hword : ∀ q, q + 8 ≤ 70 → r64 (encEvent e ++ following) q
      = some (ofLE64 (slice (encEvent e ++ following) q 8)) := by
    intro q hq
    rw [r64, load_eq (by omega), Option.map_some,
      orIn_eq_ofLE64 (length_slice _ _ _ (by omega))]
  refine ⟨?_, ?_, ?_, ?_⟩
  · exact (hword 0 (by decide)).trans (congrArg some (timestampNs_decEvent e [] following))
  · exact (hword 8 (by decide)).trans (congrArg some (sequence_decEvent e [] following))
  · rw [r32, load_eq (by omega)]
    exact congrArg some (lineageDepth_decEvent e [] following)
  · rw [r16, load_eq (by omega)]
    exact congrArg some (payloadSize_decEvent e [] following)

/-- The payload of the event at the start of the memory. -/
theorem slice_payload (hP : e.payloadSize.toNat ≤ P) :
    slice (encEvent e ++ following) 70 e.payloadSize.toNat = e.bytes := by
  have h := slice_append_mid (encHeader e) e.bytes following
  rw [length_encHeader, Event.length_bytes hP] at h
  rw [encEvent, List.append_assoc]
  exact h

end Reads

/-- The bytes of an answer before its payload. -/
def answerHead (ts seq : UInt64) (lineage : UInt32) (plen : UInt16) : List UInt8 :=
  le32 1 ++ le64 ts ++ le64 seq ++ le32 lineage ++ le16 plen
    ++ (streamName ++ List.replicate (streamIdMax - streamName.length) 0)
    ++ (schemaName ++ List.replicate (schemaIdMax - schemaName.length) 0)

theorem length_answerHead (ts seq : UInt64) (lineage : UInt32) (plen : UInt16) :
    (answerHead ts seq lineage plen).length = 74 := by
  unfold answerHead
  simp only [List.length_append, length_le64, length_le32, length_le16]
  decide

/-- The answer to a trigger. -/
def processed (e : Event P) : Event P :=
  { e with
    streamId := field streamIdMax streamName
    schemaId := field schemaIdMax schemaName }

theorem bytes_processed (e : Event P) : (processed e).bytes = e.bytes := rfl

theorem encResponse_processed (e : Event P) : encResponse [processed e]
    = answerHead e.timestampNs e.sequence e.lineageDepth e.payloadSize ++ e.bytes := by
  have hstream : (field streamIdMax streamName).toList
      = streamName ++ List.replicate (streamIdMax - streamName.length) 0 := by decide
  have hschema : (field schemaIdMax schemaName).toList
      = schemaName ++ List.replicate (schemaIdMax - schemaName.length) 0 := by decide
  have hone : le32 (UInt32.ofNat [processed e].length) = le32 1 := rfl
  rw [encResponse, hone, encEvents, List.flatMap_singleton, encEvent, encHeader, bytes_processed,
    answerHead, ← hstream, ← hschema]
  simp only [List.append_assoc, processed]

theorem putName_eq {mem bs : List UInt8} {p q size : Nat} (name : Str) (hq : q = p + bs.length)
    (hname : name.length ≤ size) (h : q + size ≤ mem.length) :
    putName (splice mem p bs) q name size
      = some (splice mem p (bs ++ (name ++ List.replicate (size - name.length) 0))) := by
  have hzeros : (List.replicate (size - name.length) (0 : UInt8)).length = size - name.length :=
    List.length_replicate
  rw [putName, store_append hq (by rw [List.length_append]; omega), Option.bind_eq_bind,
    Option.bind_some, store_append (by rw [List.length_append]; omega)
      (by rw [List.length_append, List.length_append, hzeros]; omega), List.append_assoc]

theorem packAnswer_eq {mem : List UInt8} {p payload : Nat} (ts seq : UInt64) (lineage : UInt32)
    (plen : UInt16) (hdisjoint : payload + plen.toNat ≤ p) (h : p + 74 + plen.toNat ≤ mem.length) :
    packAnswer mem p ts seq lineage plen payload
      = some (splice mem p (answerHead ts seq lineage plen ++ slice mem payload plen.toNat)) := by
  have hhead := length_answerHead ts seq lineage plen
  have hstream : streamName.length ≤ streamIdMax := by decide
  have hschema : schemaName.length ≤ schemaIdMax := by decide
  have hmagic : w32 mem p 1 = some (splice mem p (le32 1)) := by
    rw [w32, shiftOut_four, store_eq (by rw [length_le32]; omega)]
  have hts : w64 (splice mem p (le32 1)) (p + 4) ts = some (splice mem p (le32 1 ++ le64 ts)) := by
    refine store_append rfl ?_
    rw [List.length_append, length_le32, ← le64, length_le64]
    omega
  have hseq : w64 (splice mem p (le32 1 ++ le64 ts)) (p + 12) seq
      = some (splice mem p (le32 1 ++ le64 ts ++ le64 seq)) := by
    refine store_append rfl ?_
    rw [List.length_append, List.length_append, length_le32, length_le64, ← le64, length_le64]
    omega
  have hlineage : w32 (splice mem p (le32 1 ++ le64 ts ++ le64 seq)) (p + 20) lineage
      = some (splice mem p (le32 1 ++ le64 ts ++ le64 seq ++ le32 lineage)) := by
    rw [w32, shiftOut_four]
    exact store_append rfl (by simp; omega)
  have hplen : w16 (splice mem p (le32 1 ++ le64 ts ++ le64 seq ++ le32 lineage)) (p + 24) plen
      = some (splice mem p (le32 1 ++ le64 ts ++ le64 seq ++ le32 lineage ++ le16 plen)) := by
    rw [w16, and_shift_toUInt8]
    exact store_append rfl (by simp; omega)
  have hname : putName (splice mem p (le32 1 ++ le64 ts ++ le64 seq ++ le32 lineage ++ le16 plen))
      (p + 26) streamName streamIdMax
        = some (splice mem p (le32 1 ++ le64 ts ++ le64 seq ++ le32 lineage ++ le16 plen
          ++ (streamName ++ List.replicate (streamIdMax - streamName.length) 0))) :=
    putName_eq streamName rfl hstream (by rw [streamIdMax]; omega)
  have hlast : putName (splice mem p (le32 1 ++ le64 ts ++ le64 seq ++ le32 lineage ++ le16 plen
      ++ (streamName ++ List.replicate (streamIdMax - streamName.length) 0))) (p + 58) schemaName
        schemaIdMax = some (splice mem p (answerHead ts seq lineage plen)) :=
    putName_eq schemaName rfl hschema (by rw [schemaIdMax]; omega)
  simp only [packAnswer, Option.bind_eq_bind, hmagic, hts, hseq, hlineage, hplen, hname, hlast,
    Option.bind_some]
  have hlen : (splice mem p (answerHead ts seq lineage plen)).length = mem.length :=
    length_splice (by omega)
  rw [copyBytes_eq (by omega) (by omega), slice_splice (by omega) (by omega), ← hhead,
    splice_append _ _ (by omega)]

/-- **The guest** answers a trigger it has room for with one event that has its payload, and refuses
any other. -/
theorem onTrigger_eq (e : Event P) (following : List UInt8) (inLen : UInt32)
    (hP : e.payloadSize.toNat ≤ P) (hin : headerSize + e.payloadSize.toNat ≤ ioBufSize)
    (hsize : ioBufSize * 2 ≤ (encEvent e ++ following).length) :
    onTrigger (encEvent e ++ following) 0 inLen (UInt32.ofNat ioBufSize) (UInt32.ofNat ioBufSize)
      = if e.payloadSize.toNat ≤ payloadMax then
          some (UInt32.ofNat (74 + e.payloadSize.toNat),
            splice (encEvent e ++ following) ioBufSize (encResponse [processed e]))
        else some (0xFFFFFFFF, encEvent e ++ following) := by
  obtain ⟨hts, hseq, hlineage, hplen⟩ := reads_header e following
  have hheader : headerSize = 70 := rfl
  have hzone : (UInt32.ofNat ioBufSize).toNat = ioBufSize := by decide
  have hio : ioBufSize = 65536 := rfl
  have hfield := e.payloadSize.toNat_lt
  have hts' : ∃ x, payloadTs (encEvent e ++ following) e.payloadSize (22 + streamIdMax + schemaIdMax)
      = some x := by
    unfold payloadTs
    split
    · refine ⟨orIn (slice (encEvent e ++ following) 70 8) 0 0, ?_⟩
      rw [r64, load_eq (by simp only [streamIdMax, schemaIdMax]; omega)]
      rfl
    · exact ⟨0, rfl⟩
  obtain ⟨x, hts'⟩ := hts'
  unfold onTrigger
  simp only [Option.bind_eq_bind, show (0 : UInt32).toNat = 0 from rfl, Nat.zero_add, hts, hseq,
    hlineage, hplen, hzone, hts', Option.bind_some]
  by_cases hroom : e.payloadSize.toNat ≤ payloadMax
  · have hmax : payloadMax = 256 := rfl
    have hhead : answerHeader + streamIdMax + schemaIdMax = 74 := rfl
    have hpack : packAnswer (encEvent e ++ following) ioBufSize e.timestampNs e.sequence
        e.lineageDepth e.payloadSize (22 + streamIdMax + schemaIdMax)
          = some (splice (encEvent e ++ following) ioBufSize (encResponse [processed e])) := by
      rw [packAnswer_eq _ _ _ _ (by simp only [streamIdMax, schemaIdMax]; omega) (by omega),
        encResponse_processed]
      exact congrArg (fun bs => some (splice _ _ (_ ++ bs))) (slice_payload e following hP)
    rw [if_neg (by omega), if_neg (by omega), if_pos hroom, hpack, Option.bind_some]
  · rw [if_pos (by omega), if_neg hroom]

/-! ## Calls -/

/-- The engine whose module is the script, with this memory. -/
def passthrough (mem : List UInt8) : Engine where
  memory := some mem
  call := onTrigger

/-- What `invoke_zero_copy` is called on. -/
structure Call (P : Nat) where
  input : ZeroCopyInput P
  rings : UMap Str (StreamRing P)

namespace Call

/-- The request is well formed and stays in its zone. -/
structure Fits (c : Call P) : Prop where
  payloads : PayloadsFit c.input c.rings
  size : requestSize c.input c.rings ≤ ioBufSize

/-- The number of payload bytes of the trigger. -/
def plen (c : Call P) : Nat := c.input.triggerEvent.payloadSize.toNat

/-- The memory a call leaves. -/
def after (mem : List UInt8) (c : Call P) : List UInt8 :=
  if mem.length < ioBufSize * 2 then mem
  else
    let w := serialize c.input c.rings
    let mem := applyStores mem w.stores
    if w.pos > ioBufSize then mem
    else ((onTrigger mem 0 (UInt32.ofNat w.pos) (UInt32.ofNat ioBufSize)
      (UInt32.ofNat ioBufSize)).map (·.2)).getD mem

end Call

/-- The memory with the request of a call. -/
def requested (mem : List UInt8) (c : Call P) : List UInt8 :=
  splice mem 0 (encRequest c.input c.rings)

/-- Where the payload of an answer starts. -/
def payloadAt : Nat := ioBufSize + 74

section Calls
variable {mem : List UInt8} {c : Call P}

theorem applyStores_serialize (h : c.Fits) (hsize : ioBufSize * 2 ≤ mem.length) :
    applyStores mem (serialize c.input c.rings).stores = requested mem c := by
  have hlen := length_encRequest h.payloads
  have hfit := h.size
  have hstores : (serialize c.input c.rings).stores = (encRequest c.input c.rings).zipIdx 0 := by
    rw [serialize_eq]
    exact List.nil_append _
  rw [applyStores, hstores, foldl_set_eq_splice (by omega)]
  rfl

theorem length_requested (h : c.Fits) (hsize : ioBufSize * 2 ≤ mem.length) :
    (requested mem c).length = mem.length := by
  have hlen := length_encRequest h.payloads
  have hfit := h.size
  exact length_splice (by omega)

theorem exists_requested (mem : List UInt8) (c : Call P) :
    ∃ following, requested mem c = encEvent c.input.triggerEvent ++ following := by
  let windows := c.input.windows.toPairs
  refine ⟨le32 (UInt32.ofNat windows.length) ++ (windows.flatMap (encWindow c.rings)
    ++ mem.drop (0 + (encRequest c.input c.rings).length)), ?_⟩
  rw [requested, splice, List.take_zero, List.nil_append, encRequest, List.append_assoc,
    List.append_assoc]

/-- **One call** writes its answer over the response zone, or leaves the zone. -/
theorem onTrigger_requested (h : c.Fits) (hsize : ioBufSize * 2 ≤ mem.length) (inLen : UInt32) :
    onTrigger (requested mem c) 0 inLen (UInt32.ofNat ioBufSize) (UInt32.ofNat ioBufSize)
      = if c.plen ≤ payloadMax then
          some (UInt32.ofNat (74 + c.plen),
            splice (requested mem c) ioBufSize (encResponse [processed c.input.triggerEvent]))
        else some (0xFFFFFFFF, requested mem c) := by
  obtain ⟨following, hreq⟩ := exists_requested mem c
  have hlen := length_requested h hsize
  have hfit := h.size
  rw [requestSize, eventSize] at hfit
  rw [hreq] at hlen ⊢
  exact onTrigger_eq _ _ _ h.payloads.1 (by omega) (by omega)

theorem pos_serialize (h : c.Fits) : ¬ (serialize c.input c.rings).pos > ioBufSize := by
  have hpos : (serialize c.input c.rings).pos = 0 + (encRequest c.input c.rings).length := by
    rw [serialize_eq]
    rfl
  rw [hpos, length_encRequest h.payloads, Nat.zero_add]
  exact Nat.not_lt.mpr h.size

theorem after_eq (h : c.Fits) (hsize : ioBufSize * 2 ≤ mem.length) : c.after mem
    = if c.plen ≤ payloadMax then
        splice (requested mem c) ioBufSize (encResponse [processed c.input.triggerEvent])
      else requested mem c := by
  rw [Call.after, if_neg (by omega)]
  dsimp only
  rw [if_neg (pos_serialize h), applyStores_serialize h hsize, onTrigger_requested h hsize]
  split <;> rfl

theorem length_answer (hP : c.input.triggerEvent.payloadSize.toNat ≤ P) :
    (encResponse [processed c.input.triggerEvent]).length = 74 + c.plen := by
  rw [encResponse_processed, List.length_append, length_answerHead, Event.length_bytes hP]
  rfl

theorem length_after (h : c.Fits) (hsize : ioBufSize * 2 ≤ mem.length) :
    (c.after mem).length = mem.length := by
  have hlen := length_requested h hsize
  have hanswer := length_answer h.payloads.1
  rw [after_eq h hsize]
  split
  · rename_i hroom
    have hmax : payloadMax = 256 := rfl
    have hio : ioBufSize = 65536 := rfl
    rw [length_splice (by omega), hlen]
  · exact hlen

/-- What a call leaves where payloads of answers are. -/
theorem getD_after (h : c.Fits) (hsize : ioBufSize * 2 ≤ mem.length) (i : Nat) :
    (c.after mem).getD (payloadAt + i) 0
      = if i < c.plen ∧ c.plen ≤ payloadMax then c.input.triggerEvent.bytes.getD i 0
        else mem.getD (payloadAt + i) 0 := by
  have hlen := length_requested h hsize
  have hanswer := length_answer h.payloads.1
  have hrequest := length_encRequest h.payloads
  have hfit := h.size
  have hmax : payloadMax = 256 := rfl
  have hio : ioBufSize = 65536 := rfl
  have hat : payloadAt = ioBufSize + 74 := rfl
  have hold : (requested mem c).getD (payloadAt + i) 0 = mem.getD (payloadAt + i) 0 := by
    rw [requested, getD_splice _ (by omega), if_neg (by omega)]
  rw [after_eq h hsize]
  by_cases hroom : c.plen ≤ payloadMax
  · rw [if_pos hroom, getD_splice _ (by omega)]
    by_cases hi : i < c.plen
    · have hskip : payloadAt + i - ioBufSize
          = (answerHead c.input.triggerEvent.timestampNs c.input.triggerEvent.sequence
            c.input.triggerEvent.lineageDepth c.input.triggerEvent.payloadSize).length + i := by
        rw [length_answerHead]
        omega
      rw [if_pos (by omega), if_pos ⟨hi, hroom⟩, hskip, encResponse_processed,
        List.getD_append_right _ _ _ _ (by omega), Nat.add_sub_cancel_left]
    · rw [if_neg (by omega), if_neg (fun hand => hi hand.1), hold]
  · rw [if_neg hroom, if_neg (fun hand => hroom hand.2), hold]

end Calls

/-! ## Runs -/

/-- What calls leave at byte `i` of the payloads: that of the last trigger that was answered and
reaches so far, or what the memory held before them all. -/
def residue (mem : List UInt8) (calls : List (Call P)) (i : Nat) : UInt8 :=
  match calls.reverse.find? (fun c => decide (i < c.plen ∧ c.plen ≤ payloadMax)) with
  | some c => c.input.triggerEvent.bytes.getD i 0
  | none => mem.getD (payloadAt + i) 0

theorem residue_concat (mem : List UInt8) (calls : List (Call P)) (c : Call P) (i : Nat) :
    residue mem (calls ++ [c]) i
      = if i < c.plen ∧ c.plen ≤ payloadMax then c.input.triggerEvent.bytes.getD i 0
        else residue mem calls i := by
  rw [residue, List.reverse_append, List.reverse_singleton, List.singleton_append]
  by_cases hc : i < c.plen ∧ c.plen ≤ payloadMax
  · have hfind : (c :: calls.reverse).find? (fun c => decide (i < c.plen ∧ c.plen ≤ payloadMax))
        = some c := List.find?_cons_of_pos (decide_eq_true hc)
    rw [if_pos hc, hfind]
  · have hfind : (c :: calls.reverse).find? (fun c => decide (i < c.plen ∧ c.plen ≤ payloadMax))
        = calls.reverse.find? (fun c => decide (i < c.plen ∧ c.plen ≤ payloadMax)) :=
      List.find?_cons_of_neg fun h => hc (of_decide_eq_true h)
    rw [if_neg hc, hfind, residue]

/-- **A run of calls** leaves the residue. -/
theorem run_residue {mem : List UInt8} (hsize : ioBufSize * 2 ≤ mem.length) (calls : List (Call P))
    (hfits : ∀ c ∈ calls, c.Fits) : (calls.foldl (fun mem c => c.after mem) mem).length = mem.length ∧
      ∀ i, (calls.foldl (fun mem c => c.after mem) mem).getD (payloadAt + i) 0 = residue mem calls i := by
  induction calls using List.reverseRecOn with
  | nil => exact ⟨rfl, fun i => rfl⟩
  | append_singleton calls c ih =>
      obtain ⟨hlen, hres⟩ := ih fun c' hc' => hfits c' (List.mem_append_left _ hc')
      have hc : c.Fits := hfits c (List.mem_append_right _ (List.mem_singleton_self c))
      rw [List.foldl_append, List.foldl_cons, List.foldl_nil]
      refine ⟨(length_after hc (by omega)).trans hlen, fun i => ?_⟩
      rw [getD_after hc (by omega), residue_concat, hres]

/-! ## What the host makes of an answer -/

/-- The event `e` the host gets for a trigger: the header of the answer, and payload bytes from
`streamIdMax - schemaIdMax` on of what the memory holds there. -/
structure Answers (held : Nat → UInt8) (trigger e : Event P) : Prop where
  timestampNs : e.timestampNs = trigger.timestampNs
  sequence : e.sequence = trigger.sequence
  lineageDepth : e.lineageDepth = trigger.lineageDepth
  payloadSize : e.payloadSize = trigger.payloadSize
  streamId : e.streamId = field streamIdMax streamName
  schemaId : e.schemaId = field schemaIdMax schemaName
  bytes : e.bytes = (List.range trigger.payloadSize.toNat).map fun i =>
    held (streamIdMax - schemaIdMax + i)

/-- `rev` on an encoded event whose reader stays in the memory. -/
theorem rev_encEvent (e : Event P) (pre tail : List UInt8) (hP : e.payloadSize.toNat ≤ P)
    (hpay : revPayload pre.length + e.payloadSize.toNat ≤ (pre ++ (encEvent e ++ tail)).length) :
    rev pre.length (pre ++ (encEvent e ++ tail))
      = (revLog P pre.length e.payloadSize.toNat,
        .ok (decEvent (P := P) (pre ++ (encEvent e ++ tail)) pre.length)) := by
  have hps := payloadSizeAt_encEvent e pre tail
  have hhead : pre.length + headerSize ≤ (pre ++ (encEvent e ++ tail)).length := by
    rw [revPayload] at hpay
    omega
  refine rev_eq_ok.mpr ⟨hhead, .inr (by rw [hps]; exact hpay), hps.trans_le hP, by rw [hps], rfl⟩

/-- The payload it gives the event. -/
theorem bytes_decEvent (e : Event P) (pre tail : List UInt8) (hP : e.payloadSize.toNat ≤ P)
    (hpay : revPayload pre.length + e.payloadSize.toNat ≤ (pre ++ (encEvent e ++ tail)).length) :
    (decEvent (P := P) (pre ++ (encEvent e ++ tail)) pre.length).bytes
      = slice (pre ++ (encEvent e ++ tail)) (revPayload pre.length) e.payloadSize.toNat := by
  have hslice := length_slice _ _ _ hpay
  have htake := take_field (n := P) (hslice.trans_le hP)
  rw [hslice] at htake
  rw [Event.bytes, payloadSize_decEvent]
  simp only [decEvent, payloadSizeAt_encEvent]
  exact htake

/-- **The parser** on a memory with the answer to `trigger` in its response zone. -/
theorem parseResponse_processed (trigger : Event P) (request tail : List UInt8)
    (hP : trigger.payloadSize.toNat ≤ P) (hroom : trigger.payloadSize.toNat ≤ payloadMax)
    (hzone : request.length = ioBufSize)
    (hsize : ioBufSize * 2 ≤ (request ++ (encResponse [processed trigger] ++ tail)).length) :
    ∃ e, (parseResponse (request ++ (encResponse [processed trigger] ++ tail))).2 = .ok [e] ∧
      Answers (fun i => (request ++ (encResponse [processed trigger] ++ tail)).getD (payloadAt + i) 0)
        trigger e := by
  have hmax : payloadMax = 256 := rfl
  have hio : ioBufSize = 65536 := rfl
  have hpayload : revPayload (ioBufSize + 4) = payloadAt + (streamIdMax - schemaIdMax) := rfl
  have hlast : payloadAt + (streamIdMax - schemaIdMax) = ioBufSize + 90 := rfl
  have hfit : (encResponse [processed trigger]).length ≤ ioBufSize := by
    rw [encResponse_processed, List.length_append, length_answerHead, Event.length_bytes hP]
    omega
  obtain ⟨pre, hpre⟩ : ∃ pre, request ++ le32 (UInt32.ofNat [processed trigger].length) = pre :=
    ⟨_, rfl⟩
  have hlen : pre.length = ioBufSize + 4 := by
    rw [← hpre, List.length_append, hzone, length_le32]
  have hevents : encEvents [processed trigger] = encEvent (processed trigger) :=
    List.flatMap_singleton _ _
  have hmem : request ++ (encResponse [processed trigger] ++ tail)
      = pre ++ (encEvent (processed trigger) ++ tail) := by
    rw [encResponse, hevents, List.append_assoc, ← List.append_assoc request, hpre]
  have hparse := parseResponse_encResponse (P := P)
    (fun es => es = [decEvent (pre ++ (encEvent (processed trigger) ++ tail)) pre.length])
    [processed trigger] request tail hzone hfit
  rw [hpre, hevents, hmem] at hparse
  rw [hmem] at hsize ⊢
  have hpay : revPayload pre.length + trigger.payloadSize.toNat
      ≤ (pre ++ (encEvent (processed trigger) ++ tail)).length := by
    rw [hlen, hpayload]
    omega
  have hrev := rev_encEvent (processed trigger) pre tail hP hpay
  obtain ⟨es, hes, rfl⟩ := hparse.mpr ⟨_, _, parseEvents_succ_ok.mpr ⟨_, _, _, _, hrev,
    parseEvents_zero_ok.mpr ⟨rfl, rfl⟩, rfl, rfl⟩, rfl⟩
  refine ⟨_, hes, timestampNs_decEvent (processed trigger) pre tail,
    sequence_decEvent (processed trigger) pre tail,
    lineageDepth_decEvent (processed trigger) pre tail,
    payloadSize_decEvent (processed trigger) pre tail,
    streamId_decEvent (processed trigger) pre tail,
    schemaId_decEvent (processed trigger) pre tail, ?_⟩
  refine (bytes_decEvent (processed trigger) pre tail hP hpay).trans ((slice_eq_map hpay).trans ?_)
  rw [hlen, hpayload]
  simp only [Nat.add_assoc, processed]

theorem splice_zone {mem : List UInt8} (bs : List UInt8) (hsize : ioBufSize * 2 ≤ mem.length) :
    ∃ request tail, splice mem ioBufSize bs = request ++ (bs ++ tail) ∧
      request.length = ioBufSize :=
  ⟨mem.take ioBufSize, mem.drop (ioBufSize + bs.length), rfl,
    List.length_take_of_le (by rw [ioBufSize] at hsize ⊢; omega)⟩

/-- The host hears what the script returns. -/
theorem invoke_of_call {mem mem' : List UInt8} {c : Call P} {written : UInt32} (h : c.Fits)
    (hsize : ioBufSize * 2 ≤ mem.length)
    (hcall : onTrigger (requested mem c) 0 (UInt32.ofNat (serialize c.input c.rings).pos)
      (UInt32.ofNat ioBufSize) (UInt32.ofNat ioBufSize) = some (written, mem')) :
    invokeZeroCopy (passthrough mem) c.input c.rings
      = receive (serialize c.input c.rings).stores written mem' := by
  rw [invokeZeroCopy]
  simp only [passthrough]
  rw [if_neg (by omega), if_neg (pos_serialize h), applyStores_serialize h hsize]
  simp only [hcall]

/-- One call: the event of its answer, read from the memory the call leaves. -/
theorem invoke_passthrough {mem : List UInt8} {c : Call P} (h : c.Fits)
    (hsize : ioBufSize * 2 ≤ mem.length) :
    if c.plen ≤ payloadMax then
      ∃ e, (invokeZeroCopy (passthrough mem) c.input c.rings).output = .ok { emitted := [e] } ∧
        Answers (fun i => (c.after mem).getD (payloadAt + i) 0) c.input.triggerEvent e
    else (invokeZeroCopy (passthrough mem) c.input c.rings).output = .ok {} := by
  have hcall := onTrigger_requested h hsize (UInt32.ofNat (serialize c.input c.rings).pos)
  have hmax : payloadMax = 256 := rfl
  have hio : ioBufSize = 65536 := rfl
  have hlen := length_requested h hsize
  have hanswer := length_answer h.payloads.1
  rw [after_eq h hsize]
  by_cases hroom : c.plen ≤ payloadMax
  · rw [if_pos hroom] at hcall
    simp only [if_pos hroom]
    rw [invoke_of_call h hsize hcall]
    obtain ⟨request, tail, hsplice, hzone⟩ := splice_zone
      (encResponse [processed c.input.triggerEvent]) (hsize.trans_eq hlen.symm)
    have hsize' : (splice (requested mem c) ioBufSize
        (encResponse [processed c.input.triggerEvent])).length = (requested mem c).length :=
      length_splice (by omega)
    rw [hsplice] at hsize' ⊢
    obtain ⟨e, he, hanswers⟩ := parseResponse_processed c.input.triggerEvent request tail
      h.payloads.1 hroom hzone (by omega)
    have hwritten : (UInt32.ofNat (74 + c.plen)).toNat = 74 + c.plen := by
      rw [UInt32.toNat_ofNat', Nat.mod_eq_of_lt (by omega)]
    have hpos : UInt32.ofNat (74 + c.plen) ≠ 0 := by
      intro h0
      rw [h0] at hwritten
      exact absurd hwritten (by rw [UInt32.toNat_zero]; omega)
    refine ⟨e, ?_, hanswers⟩
    rw [receive, if_neg (not_or.mpr ⟨hpos, by omega⟩)]
    exact congrArg (Except.map _) he
  · rw [if_neg hroom] at hcall
    rw [if_neg hroom, invoke_of_call h hsize hcall, receive, if_pos (.inr (by decide))]

/-- **The script behind the host.** After any calls, an answered trigger becomes one event on
`wasm_processed` whose payload is what the calls, this one the last, left behind each other from
`streamIdMax - schemaIdMax` bytes on; any other trigger becomes nothing. -/
theorem passthrough_emits {mem : List UInt8} (hsize : ioBufSize * 2 ≤ mem.length)
    (calls : List (Call P)) (c : Call P) (hfits : ∀ c' ∈ calls ++ [c], c'.Fits) :
    if c.plen ≤ payloadMax then
      ∃ e, (invokeZeroCopy (passthrough (calls.foldl (fun mem c => c.after mem) mem)) c.input
          c.rings).output = .ok { emitted := [e] } ∧
        Answers (residue mem (calls ++ [c])) c.input.triggerEvent e
    else (invokeZeroCopy (passthrough (calls.foldl (fun mem c => c.after mem) mem)) c.input
      c.rings).output = .ok {} := by
  have hc : c.Fits := hfits c (List.mem_append_right _ (List.mem_singleton_self c))
  have hcalls : ∀ c' ∈ calls, c'.Fits := fun c' hc' => hfits c' (List.mem_append_left _ hc')
  have hlen := (run_residue hsize calls hcalls).1
  have hres : (fun i => (c.after (calls.foldl (fun mem c => c.after mem) mem)).getD (payloadAt + i) 0)
      = residue mem (calls ++ [c]) := by
    funext i
    rw [← (run_residue hsize (calls ++ [c]) hfits).2 i, List.foldl_append, List.foldl_cons,
      List.foldl_nil]
  rw [← hres]
  exact invoke_passthrough hc (hsize.trans_eq hlen.symm)

/-- A call without windows. -/
def bareCall (payload : List UInt8) : Call 32 where
  input := { triggerEvent := (({} : Event 32).setPayload payload).2, windows := ∅ }
  rings := ∅

theorem bareCall_fits_long : (bareCall (List.replicate 20 7)).Fits where
  payloads := by unfold PayloadsFit; decide +kernel
  size := by decide +kernel

theorem bareCall_fits_short : (bareCall [1]).Fits where
  payloads := by unfold PayloadsFit; decide +kernel
  size := by decide +kernel

/-- The one payload byte the host gets is from the call before. -/
theorem passthrough_emits_pair :
    ∃ e, (invokeZeroCopy (passthrough ([bareCall (List.replicate 20 7)].foldl
        (fun mem c => c.after mem) (List.replicate (ioBufSize * 2) 0))) (bareCall [1]).input
          (bareCall [1]).rings).output = .ok { emitted := [e] } ∧
        Answers (residue (List.replicate (ioBufSize * 2) 0)
          ([bareCall (List.replicate 20 7)] ++ [bareCall [1]])) (bareCall [1]).input.triggerEvent e := by
  have hmem : ioBufSize * 2 ≤ (List.replicate (ioBufSize * 2) (0 : UInt8)).length :=
    List.length_replicate.ge
  have h := passthrough_emits hmem [bareCall (List.replicate 20 7)] (bareCall [1])
    (List.forall_mem_cons.mpr
      ⟨bareCall_fits_long, List.forall_mem_singleton.mpr bareCall_fits_short⟩)
  rwa [if_pos (by decide +kernel)] at h

example : residue (List.replicate (ioBufSize * 2) 0)
    [bareCall (List.replicate 20 7), bareCall [1]] 16 = 7 := by decide +kernel

end Passthrough

end Mawmaw.Executor
