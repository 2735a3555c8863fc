import Mawmaw.Executor.WasmScript

/-!
# The response round trip

* `encResponse` : a response as scripts write it, the count and the encoded events;
* `Shifted` : every payload equals the bytes `streamIdMax - schemaIdMax` further on, where `rev`
  looks for it;
* `parseResponse_agrees_iff` : the parser gives back the events of a response exactly when they are
  shifted.
-/

namespace Mawmaw.Executor
open Mawmaw.Lib Mawmaw.Core

variable {P : Nat}

/-- A response: the count, then the events. -/
def encResponse (es : List (Event P)) : List UInt8 :=
  le32 (UInt32.ofNat es.length) ++ encEvents es

/-- Each payload, and as many bytes of what follows it as its reader is ahead by, repeats itself at
that distance; `tail` is what the memory holds after the last event. -/
def Shifted (tail : List UInt8) : List (Event P) → Prop
  | [] => True
  | e :: es =>
    slice (e.bytes ++ (encEvents es ++ tail)) (streamIdMax - schemaIdMax) e.payloadSize.toNat
      = e.bytes ∧ Shifted tail es

/-- Events without payload are shifted, whatever follows them. -/
theorem shifted_of_no_payload {tail : List UInt8} {es : List (Event P)}
    (h : ∀ e ∈ es, e.payloadSize = 0) : Shifted tail es := by
  induction es with
  | nil => trivial
  | cons e es ih =>
      have h0 : e.payloadSize = 0 := h e (by simp)
      exact ⟨by simp [slice, Event.bytes, h0], ih fun e' he' => h e' (by simp [he'])⟩

theorem length_le_encEvents (es : List (Event P)) : es.length ≤ (encEvents es).length := by
  induction es with
  | nil => exact le_refl _
  | cons e es ih =>
      rw [encEvents_cons, List.length_append, encEvent, List.length_append, length_encHeader,
        headerSize, List.length_cons]
      omega

/-! ## One event -/

theorem revPayload_le_of_shifted {e : Event P} (pre : List UInt8) {following : List UInt8}
    (hP : e.payloadSize.toNat ≤ P)
    (h : slice (e.bytes ++ following) (streamIdMax - schemaIdMax) e.payloadSize.toNat = e.bytes) :
    e.payloadSize.toNat = 0 ∨
      revPayload pre.length + e.payloadSize.toNat ≤ (pre ++ (encEvent e ++ following)).length := by
  have hlen := congrArg List.length h
  rw [Event.length_bytes hP, slice, List.length_take, List.length_drop, List.length_append,
    Event.length_bytes hP] at hlen
  rw [revPayload, List.length_append, List.length_append, length_encEvent hP]
  omega

/-- `rev` on an encoded event: it succeeds with an agreeing event exactly when the payload is
shifted. -/
theorem rev_agrees_iff (e : Event P) (pre following : List UInt8) (hP : e.payloadSize.toNat ≤ P) :
    (∃ log e', rev pre.length (pre ++ (encEvent e ++ following)) = (log, .ok e') ∧ Agrees e e') ↔
      slice (e.bytes ++ following) (streamIdMax - schemaIdMax) e.payloadSize.toNat = e.bytes := by
  have hhead : pre.length + headerSize ≤ (pre ++ (encEvent e ++ following)).length := by
    rw [List.length_append, List.length_append, length_encEvent hP]
    omega
  simp only [rev_eq_ok, payloadSizeAt_encEvent]
  refine ⟨?_, ?_⟩
  · rintro ⟨_, _, ⟨-, hpay, -, -, rfl⟩, hagree⟩
    exact (agrees_decEvent_iff e pre following hP hpay).mp hagree
  · intro h
    have hpay := revPayload_le_of_shifted pre hP h
    exact ⟨_, _, ⟨hhead, hpay, hP, rfl, rfl⟩, (agrees_decEvent_iff e pre following hP hpay).mpr h⟩

/-! ## The loop -/

theorem parseEvents_agrees_iff (tail : List UInt8) (es : List (Event P))
    (hP : ∀ e ∈ es, e.payloadSize.toNat ≤ P) (pre : List UInt8) :
    (∃ log es', parseEvents es.length pre.length (pre ++ (encEvents es ++ tail)) = (log, .ok es') ∧
      List.Forall₂ Agrees es es') ↔ Shifted tail es := by
  induction es generalizing pre with
  | nil =>
      simp only [List.length_nil, parseEvents_zero_ok]
      exact ⟨fun _ => trivial, fun _ => ⟨[], [], ⟨rfl, rfl⟩, .nil⟩⟩
  | cons e es ih =>
      have hPe : e.payloadSize.toNat ≤ P := hP e (by simp)
      have ih := ih (fun e' he' => hP e' (by simp [he'])) (pre ++ encEvent e)
      have hnext : (pre ++ encEvent e).length
          = pre.length + (headerSize + e.payloadSize.toNat) := by
        rw [List.length_append, length_encEvent hPe]
      have hmem : pre ++ (encEvents (e :: es) ++ tail)
          = pre ++ (encEvent e ++ (encEvents es ++ tail)) := by
        rw [encEvents_cons, List.append_assoc]
      have hmem' : (pre ++ encEvent e) ++ (encEvents es ++ tail)
          = pre ++ (encEvent e ++ (encEvents es ++ tail)) := List.append_assoc _ _ _
      rw [hnext, hmem'] at ih
      rw [Shifted, ← rev_agrees_iff e pre _ hPe, ← ih, hmem]
      simp only [List.length_cons, parseEvents_succ_ok]
      refine ⟨?_, ?_⟩
      · rintro ⟨_, _, ⟨l₁, e', l₂, es', he, hes, rfl, rfl⟩, hall⟩
        obtain ⟨hagree, hall⟩ := List.forall₂_cons.mp hall
        rw [hagree.payloadSize] at hes
        exact ⟨⟨l₁, e', he, hagree⟩, l₂, es', hes, hall⟩
      · rintro ⟨⟨l₁, e', he, hagree⟩, l₂, es', hes, hall⟩
        rw [← hagree.payloadSize] at hes
        exact ⟨_, _, ⟨l₁, e', l₂, es', he, hes, rfl, rfl⟩, .cons hagree hall⟩

/-- The parser on a memory whose response zone starts with the encoding of `es`: the loop, from the
first event on. -/
theorem parseResponse_encResponse (R : List (Event P) → Prop) (es : List (Event P))
    (request tail : List UInt8) (hzone : request.length = ioBufSize)
    (hfit : (encResponse es).length ≤ ioBufSize) :
    (∃ es', (parseResponse (request ++ (encResponse es ++ tail))).2 = .ok es' ∧ R es') ↔
      ∃ log es', parseEvents es.length (request ++ le32 (UInt32.ofNat es.length)).length
        ((request ++ le32 (UInt32.ofNat es.length)) ++ (encEvents es ++ tail)) = (log, .ok es') ∧
          R es' := by
  have hcount : (UInt32.ofNat es.length).toNat = es.length := by
    have hle := length_le_encEvents es
    rw [encResponse, List.length_append, length_le32, ioBufSize] at hfit
    rw [UInt32.toNat_ofNat', Nat.mod_eq_of_lt (by omega)]
  have hword : slice (request ++ (encResponse es ++ tail)) ioBufSize 4
      = le32 (UInt32.ofNat es.length) := by
    rw [encResponse, List.append_assoc, ← hzone]
    exact slice_append_mid _ _ _
  have hmem : request ++ (encResponse es ++ tail)
      = (request ++ le32 (UInt32.ofNat es.length)) ++ (encEvents es ++ tail) := by
    simp only [encResponse, List.append_assoc]
  have hlen : (request ++ le32 (UInt32.ofNat es.length)).length = ioBufSize + 4 := by
    rw [List.length_append, hzone, length_le32]
  have hroom : ioBufSize + 4 ≤ (request ++ (encResponse es ++ tail)).length := by
    rw [hmem, List.length_append, hlen]
    omega
  rw [hlen, ← hmem]
  refine ⟨?_, ?_⟩
  · rintro ⟨es', hok, hR⟩
    obtain ⟨-, l, hl, -⟩ := parseResponse_ok.mp (Prod.ext rfl hok)
    rw [hword, ofLE32_le32, hcount] at hl
    exact ⟨l, es', hl, hR⟩
  · rintro ⟨l, es', hl, hR⟩
    rw [← hcount, ← ofLE32_le32 (UInt32.ofNat es.length), ← hword] at hl
    exact ⟨es', congrArg Prod.snd (parseResponse_ok.mpr ⟨hroom, l, hl, rfl⟩), hR⟩

/-- **The response round trip.** The parser returns events that agree with the encoded ones exactly
when their payloads are shifted. -/
theorem parseResponse_agrees_iff (es : List (Event P)) (request tail : List UInt8)
    (hP : ∀ e ∈ es, e.payloadSize.toNat ≤ P) (hzone : request.length = ioBufSize)
    (hfit : (encResponse es).length ≤ ioBufSize) :
    (∃ es', (parseResponse (request ++ (encResponse es ++ tail))).2 = .ok es' ∧
      List.Forall₂ Agrees es es') ↔ Shifted tail es := by
  rw [parseResponse_encResponse _ es request tail hzone hfit]
  exact parseEvents_agrees_iff tail es hP _

/-- Two events of stream `s` with zeros as payload. -/
def zeroPayloads : List (Event 256) :=
  [((({ timestampNs := 5, sequence := 1 } : Event 256).setStream (lit "s")).setPayload [0, 0]).2,
    ((({ timestampNs := 9, sequence := 2 } : Event 256).setStream (lit "s")).setPayload [0, 0, 0]).2]

theorem parseResponse_agrees_zeros :
    ∃ es', (parseResponse (List.replicate ioBufSize 0
        ++ (encResponse zeroPayloads ++ List.replicate 32 0))).2 = .ok es' ∧
      List.Forall₂ Agrees zeroPayloads es' := by
  have hP : ∀ e ∈ zeroPayloads, e.payloadSize.toNat ≤ 256 := by decide +kernel
  have hfit : (encResponse zeroPayloads).length ≤ ioBufSize := by
    rw [encResponse, List.length_append, length_encEvents hP]
    decide +kernel
  exact (parseResponse_agrees_iff zeroPayloads (List.replicate ioBufSize 0) (List.replicate 32 0) hP
    List.length_replicate hfit).mpr ⟨by decide +kernel, by decide +kernel, trivial⟩

/-- An event with a one-byte payload, followed by zeros up to the end of the memory, does not. -/
theorem parseResponse_one_byte :
    ¬ ∃ es', (parseResponse (List.replicate ioBufSize 0
        ++ (encResponse [(({} : Event 256).setPayload [1]).2] ++ List.replicate 65461 0))).2
          = .ok es' ∧ List.Forall₂ Agrees [(({} : Event 256).setPayload [1]).2] es' := by
  have hsize : (({} : Event 256).setPayload [1]).2.payloadSize = 1 :=
    Event.setPayload_payloadSize _ _ (by decide)
  have hbytes : (({} : Event 256).setPayload [1]).2.bytes = [1] :=
    Event.setPayload_bytes _ _ (by decide) (by decide)
  have hP : ∀ e ∈ [(({} : Event 256).setPayload [1]).2], e.payloadSize.toNat ≤ 256 := by
    simp [hsize]
  have hfit : (encResponse [(({} : Event 256).setPayload [1]).2]).length ≤ ioBufSize := by
    rw [encResponse, List.length_append, length_encEvents hP, List.map_singleton, hsize]
    decide
  rw [parseResponse_encResponse _ _ _ _ List.length_replicate hfit,
    parseEvents_agrees_iff _ _ hP]
  rintro ⟨h, -⟩
  rw [hbytes, hsize] at h
  simp [-List.reduceReplicate, slice, encEvents, streamIdMax, schemaIdMax] at h

end Mawmaw.Executor
