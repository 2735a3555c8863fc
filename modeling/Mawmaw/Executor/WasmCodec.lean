import Mawmaw.Core.Event
import Mawmaw.Lib.LittleEndian

/-!
# The WASM event codec

* `WritePtr` : a write pointer into linear memory with the stores made through it; `w16Ptr`,
  `w32Ptr`, `w64Ptr`, `wevPtr` advance it;
* `encEvent` : the bytes `wevPtr` writes (`wevPtr_eq`), a header of `headerSize` bytes and the used
  payload;
* `Dec` : code reading memory, with a log of its accesses and the first fault of an access outside
  the memory or a copy longer than its field; `r16`, `r32`, `r64`, `rev` are such code;
* `agrees_decEvent_iff` : what `rev` makes of an encoded event.
-/

namespace Mawmaw.Executor
open Mawmaw.Lib Mawmaw.Core

variable {P : Nat}

/-! ## Writing -/

/-- A write pointer and the stores made so far, each byte with its offset, oldest first. -/
structure WritePtr where
  pos : Nat := 0
  stores : List (UInt8 × Nat) := []
  deriving DecidableEq, Repr

namespace WritePtr

def put (w : WritePtr) (bs : List UInt8) : WritePtr :=
  { pos := w.pos + bs.length, stores := w.stores ++ bs.zipIdx w.pos }

def w16Ptr (w : WritePtr) (v : UInt16) : WritePtr := w.put (le16 v)

def w32Ptr (w : WritePtr) (v : UInt32) : WritePtr := w.put (le32 v)

def w64Ptr (w : WritePtr) (v : UInt64) : WritePtr := w.put (le64 v)

def wevPtr (w : WritePtr) (e : Event P) : WritePtr :=
  let w := w.w64Ptr e.timestampNs
  let w := w.w64Ptr e.sequence
  let w := w.w32Ptr e.lineageDepth
  let w := w.w16Ptr e.payloadSize
  let w := w.put e.streamId.toList
  let w := w.put e.schemaId.toList
  w.put e.bytes

@[simp] theorem put_nil (w : WritePtr) : w.put [] = w := by simp [put]

theorem put_put (w : WritePtr) (a b : List UInt8) : (w.put a).put b = w.put (a ++ b) := by
  simp [put, List.zipIdx_append, Nat.add_assoc]

end WritePtr

/-- The size of an encoded event without its payload. -/
def headerSize : Nat := 8 + 8 + 4 + 2 + streamIdMax + schemaIdMax

/-- The fixed part of an encoded event. -/
def encHeader (e : Event P) : List UInt8 :=
  le64 e.timestampNs ++ le64 e.sequence ++ le32 e.lineageDepth ++ le16 e.payloadSize
    ++ e.streamId.toList ++ e.schemaId.toList

def encEvent (e : Event P) : List UInt8 := encHeader e ++ e.bytes

theorem wevPtr_eq (w : WritePtr) (e : Event P) : w.wevPtr e = w.put (encEvent e) := by
  simp only [WritePtr.wevPtr, WritePtr.w64Ptr, WritePtr.w32Ptr, WritePtr.w16Ptr, WritePtr.put_put,
    encEvent, encHeader, List.append_assoc]

@[simp] theorem length_encHeader (e : Event P) : (encHeader e).length = headerSize := by
  simp [encHeader, headerSize]
  omega

theorem length_encEvent {e : Event P} (h : e.payloadSize.toNat ≤ P) :
    (encEvent e).length = headerSize + e.payloadSize.toNat := by
  rw [encEvent, List.length_append, length_encHeader, Event.length_bytes h]

def encEvents (es : List (Event P)) : List UInt8 := es.flatMap encEvent

theorem encEvents_cons (e : Event P) (es : List (Event P)) :
    encEvents (e :: es) = encEvent e ++ encEvents es := List.flatMap_cons

theorem length_encEvents {es : List (Event P)} (hP : ∀ e ∈ es, e.payloadSize.toNat ≤ P) :
    (encEvents es).length = (es.map fun e => headerSize + e.payloadSize.toNat).sum := by
  induction es with
  | nil => rfl
  | cons e es ih =>
      rw [encEvents_cons, List.length_append, length_encEvent (hP e (by simp)),
        ih fun e' he' => hP e' (by simp [he']), List.map_cons, List.sum_cons]

theorem foldl_wevPtr (w : WritePtr) (es : List (Event P)) :
    es.foldl WritePtr.wevPtr w = w.put (encEvents es) := by
  induction es generalizing w with
  | nil => exact (w.put_nil).symm
  | cons e es ih => rw [List.foldl_cons, ih, wevPtr_eq, WritePtr.put_put, encEvents_cons]

/-! ## Reading -/

/-- An access of the decoder: a read of `len` bytes at `off`, or a store of `len` bytes into a field
of `size` bytes. -/
inductive Access
  | read (off len : Nat)
  | store (len size : Nat)
  deriving DecidableEq, Repr

/-- An access the memory or the field does not have room for. -/
inductive Fault
  | read (off len : Nat)
  | store (len size : Nat)
  deriving DecidableEq, Repr

/-- Code that reads a memory: the accesses it makes, up to its first fault, and its result. -/
def Dec (α : Type) : Type := List UInt8 → List Access × Except Fault α

namespace Dec
variable {α β : Type}

def bind (x : Dec α) (f : α → Dec β) : Dec β := fun mem =>
  match x mem with
  | (log, .ok a) => (log ++ (f a mem).1, (f a mem).2)
  | (log, .error e) => (log, .error e)

instance : Monad Dec where
  pure a := fun _ => ([], .ok a)
  bind := bind

/-- A read of `len` bytes at `p`. -/
def load (p len : Nat) : Dec (List UInt8) := fun mem =>
  ([.read p len],
    if len = 0 ∨ p + len ≤ mem.length then .ok (slice mem p len) else .error (.read p len))

def store (len size : Nat) : Dec Unit := fun _ =>
  ([.store len size], if len ≤ size then .ok () else .error (.store len size))

/-- `memcpy(field, p, len)` into a field of `size` bytes. -/
def memcpy (size p len : Nat) : Dec (List UInt8) := do
  let bs ← load p len
  store len size
  pure bs

/-- A sequence succeeds exactly when both parts do; their accesses follow one another. -/
theorem bind_eq_ok {x : Dec α} {f : α → Dec β} {mem : List UInt8} {log : List Access} {b : β} :
    (x >>= f) mem = (log, .ok b) ↔
      ∃ l₁ a l₂, x mem = (l₁, .ok a) ∧ f a mem = (l₂, .ok b) ∧ log = l₁ ++ l₂ := by
  show bind x f mem = _ ↔ _
  unfold bind
  rcases x mem with ⟨l₁, e | a⟩
  · simp
  · refine ⟨?_, ?_⟩
    · intro h
      obtain ⟨hlog, hres⟩ := Prod.mk.inj h
      exact ⟨l₁, a, (f a mem).1, rfl, Prod.ext rfl hres, hlog.symm⟩
    · rintro ⟨l₁', a', l₂, h, hf, rfl⟩
      obtain ⟨rfl, h⟩ := Prod.mk.inj h
      cases h
      show (l₁ ++ (f a mem).1, (f a mem).2) = _
      rw [hf]

theorem pure_eq_ok {a b : α} {mem : List UInt8} {log : List Access} :
    (pure a : Dec α) mem = (log, .ok b) ↔ log = [] ∧ b = a := by
  show (([], Except.ok a) : List Access × Except Fault α) = _ ↔ _
  simp [eq_comm]

theorem load_eq_ok {p len : Nat} {mem bs : List UInt8} {log : List Access} :
    load p len mem = (log, .ok bs) ↔
      (len = 0 ∨ p + len ≤ mem.length) ∧ log = [.read p len] ∧ bs = slice mem p len := by
  unfold load
  split <;> simp [*, eq_comm]

theorem store_eq_ok {len size : Nat} {mem : List UInt8} {log : List Access} {u : Unit} :
    store len size mem = (log, .ok u) ↔ len ≤ size ∧ log = [.store len size] := by
  unfold store
  split <;> simp [*, eq_comm]

theorem bind_memcpy_eq_ok {size p len : Nat} {f : List UInt8 → Dec β} {mem : List UInt8}
    {log : List Access} {b : β} :
    (memcpy size p len >>= f) mem = (log, .ok b) ↔
      (len = 0 ∨ p + len ≤ mem.length) ∧ len ≤ size ∧
        ∃ l, f (slice mem p len) mem = (l, .ok b) ∧ log = .read p len :: .store len size :: l := by
  simp only [memcpy, bind_eq_ok, load_eq_ok, store_eq_ok, pure_eq_ok]
  refine ⟨?_, ?_⟩
  · rintro ⟨_, _, l, ⟨_, _, _, ⟨h, rfl, rfl⟩, ⟨_, _, _, ⟨hs, rfl⟩, ⟨rfl, rfl⟩, rfl⟩, rfl⟩, hf, rfl⟩
    exact ⟨h, hs, l, hf, rfl⟩
  · rintro ⟨h, hs, l, hf, rfl⟩
    exact ⟨_, _, l, ⟨_, _, _, ⟨h, rfl, rfl⟩, ⟨_, (), _, ⟨hs, rfl⟩, ⟨rfl, rfl⟩, rfl⟩, rfl⟩, hf, rfl⟩

/-- A word of `len` bytes at `p`, put together by `of`. -/
def word (len : Nat) (of : List UInt8 → α) (p : Nat) : Dec α := do
  let bs ← load p len
  pure (of bs)

theorem bind_word_eq_ok {len p : Nat} {of : List UInt8 → α} {f : α → Dec β} {mem : List UInt8}
    {log : List Access} {b : β} (hlen : 0 < len) :
    (word len of p >>= f) mem = (log, .ok b) ↔
      p + len ≤ mem.length ∧
        ∃ l, f (of (slice mem p len)) mem = (l, .ok b) ∧ log = .read p len :: l := by
  simp only [word, bind_eq_ok, load_eq_ok, pure_eq_ok]
  refine ⟨?_, ?_⟩
  · rintro ⟨_, _, l, ⟨_, _, _, ⟨h, rfl, rfl⟩, ⟨rfl, rfl⟩, rfl⟩, hf, rfl⟩
    exact ⟨by omega, l, hf, rfl⟩
  · rintro ⟨h, l, hf, rfl⟩
    exact ⟨_, _, l, ⟨_, _, _, ⟨.inr h, rfl, rfl⟩, ⟨rfl, rfl⟩, rfl⟩, hf, rfl⟩

end Dec

def r16 (p : Nat) : Dec UInt16 := Dec.word 2 ofLE16 p

def r32 (p : Nat) : Dec UInt32 := Dec.word 4 ofLE32 p

def r64 (p : Nat) : Dec UInt64 := Dec.word 8 ofLE64 p

/-- A field array holding the bytes copied into it, zero where none were. -/
def field (n : Nat) (bs : List UInt8) : Vector UInt8 n := Vector.ofFn fun i => bs.getD i.val 0

/-- Reads one event. -/
def rev (p : Nat) : Dec (Event P) := do
  let timestampNs ← r64 p
  let p := p + 8
  let sequence ← r64 p
  let p := p + 8
  let lineageDepth ← r32 p
  let p := p + 4
  let payloadSize ← r16 p
  let p := p + 2
  let streamId ← Dec.memcpy streamIdMax p streamIdMax
  let p := p + streamIdMax
  let schemaId ← Dec.memcpy schemaIdMax p schemaIdMax
  -- the source skips `STREAM_ID_MAX` bytes here, 16 more than the schema id has
  let p := p + streamIdMax
  let payload ← Dec.memcpy P p payloadSize.toNat
  pure { timestampNs, sequence, lineageDepth, payloadSize
         streamId := field streamIdMax streamId
         schemaId := field schemaIdMax schemaId
         payload := field P payload }

/-! ## What `rev` reads -/

/-- The payload size the bytes at `p` announce. -/
def payloadSizeAt (mem : List UInt8) (p : Nat) : Nat := (ofLE16 (slice mem (p + 20) 2)).toNat

/-- Where `rev` reads the payload of the event at `p`. -/
def revPayload (p : Nat) : Nat := p + headerSize + (streamIdMax - schemaIdMax)

/-- The event `rev` makes of the bytes at `p`. -/
def decEvent (mem : List UInt8) (p : Nat) : Event P where
  timestampNs := ofLE64 (slice mem p 8)
  sequence := ofLE64 (slice mem (p + 8) 8)
  lineageDepth := ofLE32 (slice mem (p + 16) 4)
  payloadSize := ofLE16 (slice mem (p + 20) 2)
  streamId := field streamIdMax (slice mem (p + 22) streamIdMax)
  schemaId := field schemaIdMax (slice mem (p + 54) schemaIdMax)
  payload := field P (slice mem (revPayload p) (payloadSizeAt mem p))

/-- The accesses of `rev` at `p` for a payload of `ps` bytes. -/
def revLog (P p ps : Nat) : List Access :=
  [.read p 8, .read (p + 8) 8, .read (p + 16) 4, .read (p + 20) 2,
    .read (p + 22) streamIdMax, .store streamIdMax streamIdMax,
    .read (p + 54) schemaIdMax, .store schemaIdMax schemaIdMax,
    .read (revPayload p) ps, .store ps P]

/-- `rev` succeeds exactly when the memory holds the header and the payload where it looks for it,
and the payload array has room for it. -/
theorem rev_eq_ok {p : Nat} {mem : List UInt8} {log : List Access} {e : Event P} :
    rev p mem = (log, .ok e) ↔
      p + headerSize ≤ mem.length ∧
        (payloadSizeAt mem p = 0 ∨ revPayload p + payloadSizeAt mem p ≤ mem.length) ∧
        payloadSizeAt mem p ≤ P ∧ log = revLog P p (payloadSizeAt mem p) ∧ e = decEvent mem p := by
  have hp : p + 8 + 8 + 4 + 2 + streamIdMax + streamIdMax = revPayload p := by
    simp [revPayload, headerSize, streamIdMax, schemaIdMax]
  simp only [rev, r64, r32, r16, Dec.bind_memcpy_eq_ok, Dec.pure_eq_ok,
    Dec.bind_word_eq_ok (show 0 < 8 by decide), Dec.bind_word_eq_ok (show 0 < 4 by decide),
    Dec.bind_word_eq_ok (show 0 < 2 by decide), hp]
  refine ⟨?_, ?_⟩
  · rintro ⟨-, _, ⟨-, _, ⟨-, _, ⟨-, _, ⟨-, -, _, ⟨h, -, _, ⟨hpay, hP, _, ⟨rfl, he⟩, rfl⟩, rfl⟩,
      rfl⟩, rfl⟩, rfl⟩, rfl⟩, rfl⟩
    refine ⟨?_, hpay, hP, rfl, he⟩
    simp only [headerSize, streamIdMax, schemaIdMax] at h ⊢
    omega
  · rintro ⟨h, hpay, hP, rfl, he⟩
    simp only [headerSize, streamIdMax, schemaIdMax] at h
    refine ⟨by omega, _, ⟨by omega, _, ⟨by omega, _, ⟨by omega, _, ⟨.inr ?_, le_refl _, _,
      ⟨.inr ?_, le_refl _, _, ⟨hpay, hP, _, ⟨rfl, he⟩, rfl⟩, rfl⟩, rfl⟩, rfl⟩, rfl⟩, rfl⟩, rfl⟩
    · simp only [streamIdMax]
      omega
    · simp only [streamIdMax, schemaIdMax]
      omega

/-! ## Decoding an encoded event -/

theorem toList_field {n : Nat} {bs : List UInt8} (h : bs.length = n) :
    (field n bs).toList = bs := by
  apply List.ext_getElem
  · simp [h]
  · intro i h₁ h₂
    simp [field, List.getElem?_eq_getElem h₂]

theorem field_toList {n : Nat} (v : Vector UInt8 n) : field n v.toList = v := by
  apply Vector.toList_inj.mp
  exact toList_field (by simp)

theorem take_field {n : Nat} {bs : List UInt8} (h : bs.length ≤ n) :
    (field n bs).toList.take bs.length = bs := by
  apply List.ext_getElem
  · simp [h]
  · intro i h₁ h₂
    simp [field, h₂]

/-- What the round trip is to preserve: every field, and the used bytes of the payload. -/
structure Agrees (e e' : Event P) : Prop where
  timestampNs : e'.timestampNs = e.timestampNs
  sequence : e'.sequence = e.sequence
  lineageDepth : e'.lineageDepth = e.lineageDepth
  payloadSize : e'.payloadSize = e.payloadSize
  streamId : e'.streamId = e.streamId
  schemaId : e'.schemaId = e.schemaId
  bytes : e'.bytes = e.bytes

section RoundTrip
variable (e : Event P) (pre following : List UInt8)

theorem timestampNs_decEvent :
    (decEvent (P := P) (pre ++ (encEvent e ++ following)) pre.length).timestampNs
      = e.timestampNs := by
  have h := slice_field pre (encEvent e) following [] (le64 e.timestampNs)
    (by simp [encEvent, encHeader]) rfl rfl
  exact (congrArg ofLE64 h).trans (ofLE64_le64 _)

theorem sequence_decEvent :
    (decEvent (P := P) (pre ++ (encEvent e ++ following)) pre.length).sequence = e.sequence := by
  have h := slice_field pre (encEvent e) following (le64 e.timestampNs) (le64 e.sequence)
    (by simp [encEvent, encHeader]) rfl rfl
  exact (congrArg ofLE64 h).trans (ofLE64_le64 _)

theorem lineageDepth_decEvent :
    (decEvent (P := P) (pre ++ (encEvent e ++ following)) pre.length).lineageDepth
      = e.lineageDepth := by
  have h := slice_field pre (encEvent e) following (le64 e.timestampNs ++ le64 e.sequence)
    (le32 e.lineageDepth) (by simp [encEvent, encHeader]) rfl rfl
  exact (congrArg ofLE32 h).trans (ofLE32_le32 _)

theorem payloadSize_decEvent :
    (decEvent (P := P) (pre ++ (encEvent e ++ following)) pre.length).payloadSize
      = e.payloadSize := by
  have h := slice_field pre (encEvent e) following
    (le64 e.timestampNs ++ le64 e.sequence ++ le32 e.lineageDepth) (le16 e.payloadSize)
    (by simp [encEvent, encHeader]) rfl rfl
  exact (congrArg ofLE16 h).trans (ofLE16_le16 _)

theorem streamId_decEvent :
    (decEvent (P := P) (pre ++ (encEvent e ++ following)) pre.length).streamId = e.streamId := by
  have h : slice (pre ++ (encEvent e ++ following)) (pre.length + 22) streamIdMax
      = e.streamId.toList :=
    slice_field pre (encEvent e) following
      (le64 e.timestampNs ++ le64 e.sequence ++ le32 e.lineageDepth ++ le16 e.payloadSize)
      e.streamId.toList (by simp [encEvent, encHeader]) rfl (by simp)
  exact (congrArg (field streamIdMax) h).trans (field_toList _)

theorem schemaId_decEvent :
    (decEvent (P := P) (pre ++ (encEvent e ++ following)) pre.length).schemaId = e.schemaId := by
  have h : slice (pre ++ (encEvent e ++ following)) (pre.length + 54) schemaIdMax
      = e.schemaId.toList :=
    slice_field pre (encEvent e) following
      (le64 e.timestampNs ++ le64 e.sequence ++ le32 e.lineageDepth ++ le16 e.payloadSize
        ++ e.streamId.toList) e.schemaId.toList (by simp [encEvent, encHeader])
      (by simp; rfl) (by simp)
  exact (congrArg (field schemaIdMax) h).trans (field_toList _)

theorem payloadSizeAt_encEvent :
    payloadSizeAt (pre ++ (encEvent e ++ following)) pre.length = e.payloadSize.toNat := by
  rw [← payloadSize_decEvent e pre following, payloadSizeAt, decEvent]

/-- The payload is read `streamIdMax - schemaIdMax` bytes after its start. -/
theorem slice_revPayload (n : Nat) :
    slice (pre ++ (encEvent e ++ following)) (revPayload pre.length) n
      = slice (e.bytes ++ following) (streamIdMax - schemaIdMax) n := by
  have hoff : revPayload pre.length
      = pre.length + ((encHeader e).length + (streamIdMax - schemaIdMax)) := by
    rw [length_encHeader, revPayload, Nat.add_assoc]
  rw [hoff, slice_append_right, encEvent, List.append_assoc, slice_append_right]

/-- **What `rev` makes of an encoded event**: every field of the header comes back, so only the
payload decides whether the event does. -/
theorem agrees_decEvent_iff (hP : e.payloadSize.toNat ≤ P)
    (hlen : e.payloadSize.toNat = 0 ∨
      revPayload pre.length + e.payloadSize.toNat ≤ (pre ++ (encEvent e ++ following)).length) :
    Agrees e (decEvent (pre ++ (encEvent e ++ following)) pre.length) ↔
      slice (e.bytes ++ following) (streamIdMax - schemaIdMax) e.payloadSize.toNat = e.bytes := by
  have hbytes : (decEvent (P := P) (pre ++ (encEvent e ++ following)) pre.length).bytes
      = slice (e.bytes ++ following) (streamIdMax - schemaIdMax) e.payloadSize.toNat := by
    have hslice : (slice (pre ++ (encEvent e ++ following)) (revPayload pre.length)
        e.payloadSize.toNat).length = e.payloadSize.toNat := by
      rcases hlen with h0 | hle
      · simp [h0, slice]
      · exact length_slice _ _ _ hle
    have htake := take_field (n := P) (hslice.trans_le hP)
    rw [hslice, slice_revPayload] at htake
    rw [Event.bytes, payloadSize_decEvent]
    simp only [decEvent, payloadSizeAt_encEvent, slice_revPayload]
    exact htake
  refine ⟨?_, ?_⟩
  · intro h
    rw [← hbytes, h.bytes]
  · intro h
    exact ⟨timestampNs_decEvent e pre following, sequence_decEvent e pre following,
      lineageDepth_decEvent e pre following, payloadSize_decEvent e pre following,
      streamId_decEvent e pre following, schemaId_decEvent e pre following, hbytes.trans h⟩

end RoundTrip

end Mawmaw.Executor
