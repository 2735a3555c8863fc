import Mawmaw.Executor.WasmRoundTrip

/-!
# Untrusted responses

* `Access.Within` : an access that stays in the bytes written and in its field;
* `Safe` : a decoding whose accesses all do and whose events are well formed;
* `Frame`, `Framed` : the bytes of one event, and of a response, that make the decoding safe;
* `receive_safe_iff` : the parser is safe exactly on framed responses;
* `framed_encEvents` : the encoding of well formed events is framed.
-/

namespace Mawmaw.Executor
open Mawmaw.Lib Mawmaw.Core

variable {P : Nat}

/-- A read inside the response zone below `limit`, or a store that fits its field. -/
def Access.Within (limit : Nat) : Access → Prop
  | .read off len => len = 0 ∨ (ioBufSize ≤ off ∧ off + len ≤ limit)
  | .store len size => len ≤ size

/-- A decoding that reads only the `written` bytes, stores only into the fields and returns only
well formed events. -/
structure Safe (written : UInt32) (inv : Invocation P) : Prop where
  within : ∀ a ∈ inv.accesses, a.Within (ioBufSize + written.toNat)
  wellFormed : ∃ out, inv.output = .ok out ∧ ∀ e ∈ out.emitted, e.WellFormed

/-- The bytes at `p` are an event as its reader needs it: header and payload, the latter where `rev`
looks for it, end by `limit`, the payload fits its array, and both identifiers hold a NUL. -/
structure Frame (P : Nat) (mem : List UInt8) (limit p : Nat) : Prop where
  header : p + headerSize ≤ limit
  payload : payloadSizeAt mem p = 0 ∨ revPayload p + payloadSizeAt mem p ≤ limit
  payload_le : payloadSizeAt mem p ≤ P
  stream_nul : (0 : UInt8) ∈ slice mem (p + 22) streamIdMax
  schema_nul : (0 : UInt8) ∈ slice mem (p + 54) schemaIdMax

/-- `n` frames from `p` on, each where the announced sizes put it. -/
def Framed (P : Nat) (mem : List UInt8) (limit : Nat) : Nat → Nat → Prop
  | 0, _ => True
  | n + 1, p =>
    Frame P mem limit p ∧ Framed P mem limit n (p + (headerSize + payloadSizeAt mem p))

/-! ## One event -/

theorem revLog_within_iff {limit p ps : Nat} (hp : ioBufSize ≤ p) :
    (∀ a ∈ revLog P p ps, a.Within limit) ↔
      p + headerSize ≤ limit ∧ (ps = 0 ∨ revPayload p + ps ≤ limit) ∧ ps ≤ P := by
  simp only [revLog, List.forall_mem_cons, List.not_mem_nil, IsEmpty.forall_iff, implies_true,
    and_true, Access.Within, revPayload, headerSize, streamIdMax, schemaIdMax]
  omega

theorem wellFormed_decEvent_iff {mem : List UInt8} {p : Nat} (hp : p + headerSize ≤ mem.length) :
    (decEvent mem p : Event P).WellFormed ↔
      payloadSizeAt mem p ≤ P ∧ (0 : UInt8) ∈ slice mem (p + 22) streamIdMax ∧
        (0 : UInt8) ∈ slice mem (p + 54) schemaIdMax := by
  simp only [headerSize, streamIdMax, schemaIdMax] at hp
  have hstream : (decEvent mem p : Event P).streamId.toList = slice mem (p + 22) streamIdMax :=
    toList_field (length_slice _ _ _ (by simp only [streamIdMax]; omega))
  have hschema : (decEvent mem p : Event P).schemaId.toList = slice mem (p + 54) schemaIdMax :=
    toList_field (length_slice _ _ _ (by simp only [schemaIdMax]; omega))
  refine ⟨?_, ?_⟩
  · intro h
    exact ⟨h.payload_le, hstream ▸ h.stream_nul, hschema ▸ h.schema_nul⟩
  · rintro ⟨hP, hs, hc⟩
    exact ⟨hP, hstream ▸ hs, hschema ▸ hc⟩

/-- `rev` reads within the limit and returns a well formed event exactly on a frame. -/
theorem rev_safe_iff {mem : List UInt8} {limit p : Nat} (hlim : limit ≤ mem.length)
    (hp : ioBufSize ≤ p) :
    (∃ log e, rev p mem = (log, .ok (e : Event P)) ∧ (∀ a ∈ log, a.Within limit) ∧ e.WellFormed) ↔
      Frame P mem limit p := by
  simp only [rev_eq_ok]
  refine ⟨?_, ?_⟩
  · rintro ⟨_, _, ⟨hmem, -, -, rfl, rfl⟩, hlog, hwf⟩
    obtain ⟨hhead, hpay, -⟩ := (revLog_within_iff hp).mp hlog
    obtain ⟨hP, hs, hc⟩ := (wellFormed_decEvent_iff hmem).mp hwf
    exact ⟨hhead, hpay, hP, hs, hc⟩
  · intro h
    have hhead := h.header
    have hpay := h.payload
    exact ⟨_, _, ⟨by omega, by omega, h.payload_le, rfl, rfl⟩,
      (revLog_within_iff hp).mpr ⟨hhead, hpay, h.payload_le⟩,
      (wellFormed_decEvent_iff (by omega)).mpr ⟨h.payload_le, h.stream_nul, h.schema_nul⟩⟩

/-! ## The loop -/

theorem payloadSize_of_rev {p : Nat} {mem : List UInt8} {log : List Access} {e : Event P}
    (h : rev p mem = (log, .ok e)) : e.payloadSize.toNat = payloadSizeAt mem p := by
  obtain ⟨-, -, -, -, rfl⟩ := rev_eq_ok.mp h
  rw [decEvent, payloadSizeAt]

theorem parseEvents_safe_iff {mem : List UInt8} {limit : Nat} (hlim : limit ≤ mem.length)
    (n p : Nat) (hp : ioBufSize ≤ p) :
    (∃ log es, parseEvents n p mem = (log, .ok (es : List (Event P))) ∧
      (∀ a ∈ log, a.Within limit) ∧ ∀ e ∈ es, e.WellFormed) ↔ Framed P mem limit n p := by
  induction n generalizing p with
  | zero =>
      simp only [parseEvents_zero_ok]
      exact ⟨fun _ => trivial, fun _ => ⟨[], [], ⟨rfl, rfl⟩, by simp, by simp⟩⟩
  | succ n ih =>
      have ih := ih (p + (headerSize + payloadSizeAt mem p)) (by omega)
      rw [Framed, ← rev_safe_iff hlim hp, ← ih]
      simp only [parseEvents_succ_ok]
      refine ⟨?_, ?_⟩
      · rintro ⟨_, _, ⟨l₁, e, l₂, es, he, hes, rfl, rfl⟩, hlog, hwf⟩
        rw [payloadSize_of_rev he] at hes
        exact ⟨⟨l₁, e, he, fun a ha => hlog a (List.mem_append_left _ ha), hwf e (by simp)⟩,
          l₂, es, hes, fun a ha => hlog a (List.mem_append_right _ ha),
          fun e' he' => hwf e' (List.mem_cons_of_mem _ he')⟩
      · rintro ⟨⟨l₁, e, he, hl₁, hwf⟩, l₂, es, hes, hl₂, hwfs⟩
        rw [← payloadSize_of_rev he] at hes
        refine ⟨_, _, ⟨l₁, e, l₂, es, he, hes, rfl, rfl⟩, fun a ha => ?_, ?_⟩
        · exact (List.mem_append.mp ha).elim (hl₁ a) (hl₂ a)
        · exact List.forall_mem_cons.mpr ⟨hwf, hwfs⟩

/-- The parser is safe on the `written` bytes exactly when they hold the count and its frames. -/
theorem parseResponse_safe_iff {mem : List UInt8} {limit : Nat} (hlim : limit ≤ mem.length) :
    (∃ log es, parseResponse mem = (log, .ok (es : List (Event P))) ∧
      (∀ a ∈ log, a.Within limit) ∧ ∀ e ∈ es, e.WellFormed) ↔
      ioBufSize + 4 ≤ limit ∧
        Framed P mem limit (ofLE32 (slice mem ioBufSize 4)).toNat (ioBufSize + 4) := by
  rw [← parseEvents_safe_iff hlim _ _ (by omega)]
  simp only [parseResponse_ok]
  refine ⟨?_, ?_⟩
  · rintro ⟨_, es, ⟨-, l, hl, rfl⟩, hlog, hwf⟩
    obtain ⟨hcount, hlog⟩ := List.forall_mem_cons.mp hlog
    exact ⟨by simp only [Access.Within] at hcount; omega, l, es, hl, hlog, hwf⟩
  · rintro ⟨hcount, l, es, hl, hlog, hwf⟩
    refine ⟨_, es, ⟨by omega, l, hl, rfl⟩, List.forall_mem_cons.mpr ⟨?_, hlog⟩, hwf⟩
    simp only [Access.Within]
    omega

/-! ## The response -/

theorem safe_receive_iff_parseResponse {stores : List (UInt8 × Nat)} {written : UInt32}
    {mem : List UInt8} (hpos : 0 < written.toNat) (hle : written.toNat ≤ ioBufSize) :
    Safe written (receive stores written mem : Invocation P) ↔
      ∃ log es, parseResponse mem = (log, .ok (es : List (Event P))) ∧
        (∀ a ∈ log, a.Within (ioBufSize + written.toNat)) ∧ ∀ e ∈ es, e.WellFormed := by
  have hrun : ¬ (written = 0 ∨ written.toNat > ioBufSize) := by
    rintro (h0 | hgt)
    · rw [h0] at hpos
      exact absurd hpos (by decide)
    · omega
  rw [receive, if_neg hrun]
  rcases hparse : (parseResponse mem : List Access × Except Fault (List (Event P)))
    with ⟨log, f | es⟩
  · refine ⟨?_, ?_⟩
    · rintro ⟨-, out, hout, -⟩
      simp [Except.map] at hout
    · rintro ⟨_, _, h, -⟩
      simp at h
  · refine ⟨?_, ?_⟩
    · rintro ⟨hlog, out, hout, hwf⟩
      simp only [Except.map, Except.ok.injEq] at hout
      exact ⟨log, es, rfl, hlog, by rw [← hout] at hwf; exact hwf⟩
    · rintro ⟨_, _, h, hlog, hwf⟩
      obtain ⟨rfl, h⟩ := Prod.mk.inj h
      cases h
      exact ⟨hlog, ⟨es⟩, rfl, hwf⟩

/-- **Decoding an untrusted response.** For any content of the memory and any length the parser
accepts, it reads only the bytes written, stores only into the fields and returns only well formed
events exactly when these bytes hold the count and as many frames. -/
theorem receive_safe_iff (stores : List (UInt8 × Nat)) (written : UInt32) (mem : List UInt8)
    (hmem : ioBufSize * 2 ≤ mem.length) (hpos : 0 < written.toNat)
    (hle : written.toNat ≤ ioBufSize) :
    Safe written (receive stores written mem : Invocation P) ↔
      4 ≤ written.toNat ∧ Framed P mem (ioBufSize + written.toNat)
        (ofLE32 (slice mem ioBufSize 4)).toNat (ioBufSize + 4) := by
  rw [safe_receive_iff_parseResponse hpos hle, parseResponse_safe_iff (by omega)]
  exact and_congr_left fun _ => Nat.add_le_add_iff_left

/-! ## Encoded responses -/

/-- A well formed event in memory is a frame when the limit leaves room for its payload where `rev`
looks for it. -/
theorem frame_encEvent {e : Event P} (he : e.WellFormed) (pre following : List UInt8) {limit : Nat}
    (hlim : revPayload pre.length + e.payloadSize.toNat ≤ limit) :
    Frame P (pre ++ (encEvent e ++ following)) limit pre.length := by
  have hlen : pre.length + headerSize ≤ (pre ++ (encEvent e ++ following)).length := by
    rw [List.length_append, List.length_append, length_encEvent he.payload_le]
    omega
  have hdec : (decEvent (pre ++ (encEvent e ++ following)) pre.length : Event P).WellFormed := by
    refine ⟨?_, ?_, ?_⟩
    · rw [payloadSize_decEvent]
      exact he.payload_le
    · rw [streamId_decEvent]
      exact he.stream_nul
    · rw [schemaId_decEvent]
      exact he.schema_nul
  obtain ⟨hP, hstream, hschema⟩ := (wellFormed_decEvent_iff hlen).mp hdec
  have hhead : pre.length + headerSize ≤ limit := by
    simp only [revPayload] at hlim
    omega
  refine ⟨hhead, Or.inr ?_, hP, hstream, hschema⟩
  rw [payloadSizeAt_encEvent]
  exact hlim

/-- A response of well formed events is framed as soon as the script reports
`streamIdMax - schemaIdMax` bytes more than it wrote. -/
theorem framed_encEvents {es : List (Event P)} (hwf : ∀ e ∈ es, e.WellFormed) {limit : Nat}
    (pre tail : List UInt8)
    (hlim : pre.length + (encEvents es).length + (streamIdMax - schemaIdMax) ≤ limit) :
    Framed P (pre ++ (encEvents es ++ tail)) limit es.length pre.length := by
  induction es generalizing pre with
  | nil => trivial
  | cons e es ih =>
      have he : e.WellFormed := hwf e (by simp)
      have hsize := length_encEvent he.payload_le
      rw [encEvents_cons, List.length_append] at hlim
      have hmem : pre ++ (encEvents (e :: es) ++ tail)
          = pre ++ (encEvent e ++ (encEvents es ++ tail)) := by
        rw [encEvents_cons, List.append_assoc]
      have hnext : pre.length + (headerSize + e.payloadSize.toNat) = (pre ++ encEvent e).length := by
        rw [List.length_append, hsize]
      have hrest := ih (fun e' he' => hwf e' (by simp [he'])) (pre ++ encEvent e)
        (by rw [List.length_append]; omega)
      rw [List.append_assoc] at hrest
      rw [hmem, List.length_cons, Framed, payloadSizeAt_encEvent, hnext]
      refine ⟨frame_encEvent he pre _ ?_, hrest⟩
      rw [revPayload, Nat.add_right_comm, Nat.add_assoc pre.length, ← hsize]
      omega

/-- Two events of one stream and schema, with payloads of two and three bytes. -/
def readings : List (Event 256) :=
  [(((({ timestampNs := 5, sequence := 1 } : Event 256).setStream (lit "raw")).setSchema
      (lit "json")).setPayload [7, 8]).2,
    (((({ timestampNs := 9, sequence := 2 } : Event 256).setStream (lit "raw")).setSchema
      (lit "json")).setPayload [4, 5, 6]).2]

theorem readings_wellFormed : ∀ e ∈ readings, e.WellFormed := by
  have hnul : ∀ (e : Event 256) (data : List UInt8), data.length ≤ 3 →
      (0 : UInt8) ∈ e.streamId.toList → (0 : UInt8) ∈ e.schemaId.toList →
      (e.setPayload data).2.WellFormed := by
    intro e data hdata hstream hschema
    have hle : data.length ≤ 256 := by omega
    refine ⟨?_, ?_, ?_⟩
    · rw [Event.setPayload_payloadSize e data hle, UInt16.toNat_ofNat']
      exact (Nat.mod_le _ _).trans hle
    · rwa [Event.setPayload, if_neg (by omega)]
    · rwa [Event.setPayload, if_neg (by omega)]
  simp only [readings, List.forall_mem_cons, List.not_mem_nil, IsEmpty.forall_iff, implies_true,
    and_true]
  exact ⟨hnul _ _ (by decide) (by decide) (by decide), hnul _ _ (by decide) (by decide) (by decide)⟩

theorem length_encEvents_readings : (encEvents readings).length = 145 := by
  rw [length_encEvents fun e he => (readings_wellFormed e he).payload_le]
  decide

theorem receive_safe_iff_readings :
    Safe 165 (receive [] 165 (List.replicate ioBufSize 0
      ++ (encResponse readings ++ List.replicate ioBufSize 0)) : Invocation 256) := by
  have hresp : encResponse readings = le32 2 ++ encEvents readings := rfl
  have hmem : List.replicate ioBufSize 0 ++ (encResponse readings ++ List.replicate ioBufSize 0)
      = (List.replicate ioBufSize 0 ++ le32 2)
        ++ (encEvents readings ++ List.replicate ioBufSize 0) := by
    rw [hresp, List.append_assoc, List.append_assoc]
  have hpre : (List.replicate ioBufSize 0 ++ le32 2).length = ioBufSize + 4 := by
    rw [List.length_append, List.length_replicate, length_le32]
  have hcount : slice (List.replicate ioBufSize 0
      ++ (encResponse readings ++ List.replicate ioBufSize 0)) ioBufSize 4 = le32 2 := by
    rw [hresp, List.append_assoc]
    simpa [-List.reduceReplicate] using slice_append_mid (List.replicate ioBufSize (0 : UInt8))
      (le32 2) (encEvents readings ++ List.replicate ioBufSize 0)
  refine (receive_safe_iff [] 165 _ ?_ (by decide) (by decide)).mpr ⟨by decide, ?_⟩
  · rw [List.length_append, List.length_append, List.length_replicate]
    omega
  · rw [hcount, ofLE32_le32, hmem, ← hpre]
    refine framed_encEvents readings_wellFormed _ _ ?_
    rw [hpre, length_encEvents_readings]
    decide

/-- A response of one event that announces more payload than an event holds. -/
theorem receive_not_safe :
    ¬ Safe 330 (receive [] 330 (List.replicate ioBufSize 0
      ++ (encResponse [({ payloadSize := 65535 } : Event 256)] ++ List.replicate 65206 0))
        : Invocation 256) := by
  have hmem : List.replicate ioBufSize 0
        ++ (encResponse [({ payloadSize := 65535 } : Event 256)] ++ List.replicate 65206 0)
      = (List.replicate ioBufSize 0 ++ le32 1)
        ++ (encEvent ({ payloadSize := 65535 } : Event 256) ++ List.replicate 65206 0) := by
    simp [-List.reduceReplicate, encResponse, encEvents]
  have hpre : (List.replicate ioBufSize 0 ++ le32 1).length = ioBufSize + 4 := by
    rw [List.length_append, List.length_replicate, length_le32]
  have hcount : slice (List.replicate ioBufSize 0
        ++ (encResponse [({ payloadSize := 65535 } : Event 256)] ++ List.replicate 65206 0))
      ioBufSize 4 = le32 1 := by
    rw [encResponse, List.append_assoc]
    simpa [-List.reduceReplicate] using slice_append_mid (List.replicate ioBufSize (0 : UInt8))
      (le32 1) (encEvents [({ payloadSize := 65535 } : Event 256)] ++ List.replicate 65206 0)
  have hlen : ioBufSize + (330 : UInt32).toNat
      ≤ (List.replicate ioBufSize (0 : UInt8) ++ (encResponse
        [({ payloadSize := 65535 } : Event 256)] ++ List.replicate 65206 0)).length := by
    rw [List.length_append, List.length_replicate, List.length_append, List.length_replicate]
    exact Nat.add_le_add_left (Nat.le_add_left_of_le (by decide)) _
  rw [safe_receive_iff_parseResponse (by decide) (by decide), parseResponse_safe_iff hlen, hcount]
  rintro ⟨-, hframe, -⟩
  have hsize := hframe.payload_le
  rw [hmem, ← hpre, payloadSizeAt_encEvent] at hsize
  exact absurd hsize (by decide)

end Mawmaw.Executor
