import Mawmaw.Executor.WasmRequest
import Mawmaw.Executor.WasmRoundTrip
import Mawmaw.Lib.SelfDelimiting

/-!
# The request frame is self-delimiting

* `encEvent_delimits`, `encFrame_delimits` : events, and frames of a trigger and windows of events;
* `InputFits` : an input of a registry, with the rings as the frame is written, that fits its zone;
* `InputFits.counted` : as many events are written of a window as its count says;
* `request_self_delimiting` : a frame that starts another has the same trigger and windows.
-/

namespace Mawmaw.Executor
open Mawmaw.Lib Mawmaw.Core

variable {P : Nat}

/-! ## Events -/

theorem toList_delimits (n : Nat) : Delimits (fun _ => True) Eq (Vector.toList (α := UInt8) (n := n)) :=
  .of_fixed (fun v _ => Vector.length_toList) fun v w _ _ h => by
    rw [← field_toList v, h, field_toList]

theorem encEvent_delimits :
    Delimits (fun e : Event P => e.payloadSize.toNat ≤ P) Agrees encEvent := by
  intro e e' x y he he' h
  simp only [encEvent, encHeader, List.append_assoc] at h
  obtain ⟨hts, h⟩ := delimits_le64 _ _ _ _ trivial trivial h
  obtain ⟨hseq, h⟩ := delimits_le64 _ _ _ _ trivial trivial h
  obtain ⟨hdepth, h⟩ := delimits_le32 _ _ _ _ trivial trivial h
  obtain ⟨hsize, h⟩ := delimits_le16 _ _ _ _ trivial trivial h
  obtain ⟨hstream, h⟩ := toList_delimits _ _ _ _ _ trivial trivial h
  obtain ⟨hschema, h⟩ := toList_delimits _ _ _ _ _ trivial trivial h
  -- the payloads have no length of their own: the size field has been compared before
  have hlen : e.bytes.length = e'.bytes.length := by
    rw [Event.length_bytes he, Event.length_bytes he', hsize]
  obtain ⟨hbytes, h⟩ := List.append_inj h hlen
  exact ⟨⟨hts.symm, hseq.symm, hdepth.symm, hsize.symm, hstream.symm, hschema.symm, hbytes.symm⟩, h⟩

/-! ## Frames -/

/-- `sid_buf`. -/
def idBytes (sid : Str) : List UInt8 :=
  (strncpy (Vector.replicate streamIdMax 0) sid (streamIdMax - 1)).toList

/-- An identifier its field holds entirely. -/
def ShortId (sid : Str) : Prop := NulFree sid ∧ sid.length ≤ 31

theorem cstr_idBytes {sid : Str} (h : ShortId sid) : cstr (idBytes sid) = sid := by
  obtain ⟨hfree, hlen⟩ := h
  have hcut : (cstr sid).take 31 = sid := by rw [cstr_eq_self hfree, List.take_of_length_le hlen]
  have hfield : idBytes sid = sid ++ 0 :: List.replicate (31 - sid.length) 0 := by
    have hcopy := toList_strncpy_zero (n := streamIdMax) sid 31 (by decide)
    rw [hcut] at hcopy
    have hzeros : streamIdMax - sid.length = (31 - sid.length) + 1 := by
      show 32 - sid.length = _
      omega
    rw [← List.replicate_succ, ← hzeros]
    exact hcopy
  rw [hfield, cstr_append_zero hfree]

theorem idBytes_delimits : Delimits ShortId Eq idBytes :=
  .of_fixed (fun _ _ => Vector.length_toList) fun sid sid' h h' heq => by
    rw [← cstr_idBytes h, heq, cstr_idBytes h']

/-- A list of at most `2 ^ 32 - 1` events whose payload sizes are those of their payloads. -/
def EventsFit (es : List (Event P)) : Prop :=
  es.length < 2 ^ 32 ∧ ∀ e ∈ es, e.payloadSize.toNat ≤ P

/-- The identifier, the number of events, the events. -/
def encContents (win : Str × List (Event P)) : List UInt8 := idBytes win.1 ++ sized encEvent win.2

/-- The trigger, the number of windows, the windows. -/
def encFrame (frame : Event P × List (Str × List (Event P))) : List UInt8 :=
  encEvent frame.1 ++ sized encContents frame.2

/-- The same identifier, and events that agree, one by one. -/
def SameWindow (win win' : Str × List (Event P)) : Prop :=
  win.1 = win'.1 ∧ List.Forall₂ Agrees win.2 win'.2

def WindowFits (win : Str × List (Event P)) : Prop := ShortId win.1 ∧ EventsFit win.2

theorem events_delimits : Delimits (EventsFit (P := P)) (List.Forall₂ Agrees) (sized encEvent) :=
  encEvent_delimits.sized

theorem encContents_delimits : Delimits (WindowFits (P := P)) SameWindow encContents :=
  idBytes_delimits.prod events_delimits

def FrameFits (frame : Event P × List (Str × List (Event P))) : Prop :=
  frame.1.payloadSize.toNat ≤ P ∧ (frame.2.length < 2 ^ 32 ∧ ∀ win ∈ frame.2, WindowFits win)

theorem encFrame_delimits : Delimits (FrameFits (P := P))
    (fun frame frame' => Agrees frame.1 frame'.1 ∧ List.Forall₂ SameWindow frame.2 frame'.2)
    encFrame :=
  encEvent_delimits.prod encContents_delimits.sized

/-! ## The frames of an input -/

/-- The rings have not gone back since the registry's state `reg`. -/
def Grown (reg : WindowRegistry P) (rings : UMap Str (StreamRing P)) : Prop :=
  ∀ sid sr, reg.rings.lookup sid = some sr →
    ∃ sr', rings.lookup sid = some sr' ∧ sr.ring.head ≤ sr'.ring.head

theorem Grown.refl (reg : WindowRegistry P) : Grown reg reg.rings :=
  fun _ sr hsr => ⟨sr, hsr, UInt64.le_refl _⟩

/-- An input the registry has built, with the rings as they are when its frame is written. -/
def Built (input : ZeroCopyInput P) (rings : UMap Str (StreamRing P)) : Prop :=
  ∃ reg trigger subs, input = reg.makeZeroCopyInput trigger subs ∧ Grown reg rings

/-- The trigger, and the identifiers and events of the windows in the order they are written. -/
def contents (input : ZeroCopyInput P) (rings : UMap Str (StreamRing P)) :
    Event P × List (Str × List (Event P)) :=
  (input.triggerEvent,
    input.windows.toPairs.map fun win => (win.1, viewEvents rings win.1 win.2))

/-- The bytes written from the start of the memory on. -/
def frame (input : ZeroCopyInput P) (rings : UMap Str (StreamRing P)) : List UInt8 :=
  (serialize input rings).stores.map (·.1)

theorem frame_eq (input : ZeroCopyInput P) (rings : UMap Str (StreamRing P)) :
    frame input rings = encRequest input rings := by
  rw [frame, serialize_eq]
  exact List.zipIdx_map_fst _ _

/-- No event of a view the registry has built is skipped: its end was the head of the ring. -/
theorem Built.length_viewEvents {input : ZeroCopyInput P} {rings : UMap Str (StreamRing P)}
    (h : Built input rings) {win : Str × RingView} (hwin : win ∈ input.windows.toPairs) :
    (viewEvents rings win.1 win.2).length = win.2.size.toNat := by
  obtain ⟨reg, trigger, subs, rfl, hgrown⟩ := h
  have hlook := UMap.lookup_of_mem_toPairs hwin
  rw [WindowRegistry.lookup_makeZeroCopyInput] at hlook
  obtain ⟨spec, -, hview⟩ := Option.bind_eq_some_iff.mp hlook
  obtain ⟨sr, hsr, hbounds⟩ := Option.map_eq_some_iff.mp hview
  obtain ⟨sr', hsr', hhead⟩ := hgrown win.1 sr hsr
  have hle : win.2.endSeq ≤ sr'.ring.head := by
    rw [← hbounds]
    exact hhead
  have hbegin : win.2.beginSeq ≤ win.2.endSeq := by
    rw [← hbounds]
    exact windowBounds_begin_le sr.ring spec trigger.timestampNs
  have hsize : win.2.size.toNat = win.2.endSeq.toNat - win.2.beginSeq.toNat := by
    rw [RingView.size]
    split
    · exact UInt64.toNat_sub_of_le _ _ hbegin
    · rename_i hnot
      have hnat := UInt64.le_iff_toNat_le.mp (UInt64.not_lt.mp hnot)
      rw [UInt64.toNat_zero]
      omega
  rw [viewEvents, hsr', hsize]
  exact RingView.length_events win.2 sr'.ring hle

/-- An input whose frame fits its zone, with identifiers and payloads that fit their fields. -/
structure InputFits (input : ZeroCopyInput P) (rings : UMap Str (StreamRing P)) : Prop where
  built : Built input rings
  size : (frame input rings).length ≤ ioBufSize
  ids : ∀ win ∈ input.windows.toPairs, ShortId win.1
  payloads : PayloadsFit input rings

section
variable {input : ZeroCopyInput P} {rings : UMap Str (StreamRing P)}

theorem Built.encWindow_eq (h : Built input rings) {win : Str × RingView}
    (hwin : win ∈ input.windows.toPairs) :
    encWindow rings win = encContents (win.1, viewEvents rings win.1 win.2) := by
  have hcount : win.2.size.toUInt32
      = UInt32.ofNat (viewEvents rings win.1 win.2).length := by
    rw [h.length_viewEvents hwin]
    apply UInt32.toNat.inj
    simp
  rw [encWindow, hcount, List.append_assoc]
  rfl

/-- The bytes written are the frame of the contents. -/
theorem Built.frame_eq_encFrame (h : Built input rings) :
    frame input rings = encFrame (contents input rings) := by
  have hwins : input.windows.toPairs.flatMap (encWindow rings)
      = (contents input rings).2.flatMap encContents := by
    rw [contents, List.flatMap_map]
    exact List.flatMap_congr fun win hwin => h.encWindow_eq hwin
  rw [frame_eq, encRequest, encFrame, hwins, sized, List.append_assoc]
  simp [contents]

theorem InputFits.frameFits (h : InputFits input rings) : FrameFits (contents input rings) := by
  have hsize := h.size
  rw [h.built.frame_eq_encFrame, encFrame, sized, List.length_append, List.length_append,
    ioBufSize] at hsize
  have hwins := length_le_length_flatMap encContents (contents input rings).2
    fun win _ => by
      rw [encContents, List.length_append, idBytes, Vector.length_toList]
      exact Nat.lt_of_lt_of_le (by decide) (Nat.le_add_right streamIdMax _)
  refine ⟨h.payloads.1, by omega, fun win hwin => ?_⟩
  have hwin' := length_le_of_mem_flatMap encContents hwin
  obtain ⟨v, hv, rfl⟩ := List.mem_map.mp hwin
  have hevents := length_le_encEvents (viewEvents rings v.1 v.2)
  rw [encEvents] at hevents
  rw [encContents, sized, List.length_append, List.length_append] at hwin'
  refine ⟨h.ids v hv, ?_, h.payloads.2 v hv⟩
  change (viewEvents rings v.1 v.2).length < 2 ^ 32
  dsimp only at hwin'
  omega

/-- The count written for a window is the number of events written after it. -/
def Counted (rings : UMap Str (StreamRing P)) (win : Str × RingView) : Prop :=
  win.2.size.toUInt32.toNat = (viewEvents rings win.1 win.2).length

theorem InputFits.counted (h : InputFits input rings) : ∀ win ∈ input.windows.toPairs, Counted rings win := by
  intro win hwin
  have hfits := h.frameFits.2.2 _ (List.mem_map_of_mem hwin)
  have hlen := h.built.length_viewEvents hwin
  rw [Counted, UInt64.toNat_toUInt32, ← hlen]
  exact Nat.mod_eq_of_lt hfits.2.1

end

/-- Of two frames, one the beginning of the other, the triggers agree, and the windows in the order
they are written: identifiers, numbers of events, events. -/
theorem request_self_delimiting {input input' : ZeroCopyInput P}
    {rings rings' : UMap Str (StreamRing P)} (h : InputFits input rings) (h' : InputFits input' rings')
    (hpre : frame input rings <+: frame input' rings') :
    Agrees input.triggerEvent input'.triggerEvent
      ∧ List.Forall₂ SameWindow (contents input rings).2 (contents input' rings').2
      ∧ (∀ win ∈ input.windows.toPairs, Counted rings win)
      ∧ ∀ win ∈ input'.windows.toPairs, Counted rings' win := by
  have hcounted := h.counted
  rw [h.built.frame_eq_encFrame, h'.built.frame_eq_encFrame] at hpre
  obtain ⟨htrigger, hwins⟩ := encFrame_delimits.of_prefix h.frameFits h'.frameFits hpre
  exact ⟨htrigger, hwins, hcounted, h'.counted⟩

/-- The last two events of each stream of `twoStreams`, on larger rings. -/
def lastEvents : WindowRegistry 8 :=
  ((({} : WindowRegistry 8).ensureStream (lit "s") .four).ensureStream (lit "t")
    .four).pushAll pushedEvents.tail

def twoInput (reg : WindowRegistry 8) : ZeroCopyInput 8 :=
  reg.makeZeroCopyInput { timestampNs := 5 } twoSubs

theorem inputFits_twoStreams : InputFits (twoInput twoStreams) twoStreams.rings where
  built := ⟨twoStreams, { timestampNs := 5 }, twoSubs, rfl, Grown.refl twoStreams⟩
  size := by decide +kernel
  ids := by unfold ShortId; decide +kernel
  payloads := payloadsFit_twoStreams

theorem inputFits_lastEvents : InputFits (twoInput lastEvents) lastEvents.rings where
  built := ⟨lastEvents, { timestampNs := 5 }, twoSubs, rfl, Grown.refl lastEvents⟩
  size := by decide +kernel
  ids := by unfold ShortId; decide +kernel
  payloads := by unfold PayloadsFit; decide +kernel

/-- Views of other positions, with the same frame. -/
theorem request_self_delimiting_two :
    (twoInput twoStreams).windows.toPairs ≠ (twoInput lastEvents).windows.toPairs
      ∧ Agrees (twoInput twoStreams).triggerEvent (twoInput lastEvents).triggerEvent
      ∧ List.Forall₂ SameWindow (contents (twoInput twoStreams) twoStreams.rings).2
        (contents (twoInput lastEvents) lastEvents.rings).2
      ∧ (∀ win ∈ (twoInput twoStreams).windows.toPairs, Counted twoStreams.rings win)
      ∧ ∀ win ∈ (twoInput lastEvents).windows.toPairs, Counted lastEvents.rings win := by
  have hframe : frame (twoInput twoStreams) twoStreams.rings
      = frame (twoInput lastEvents) lastEvents.rings := by decide +kernel
  have hpre : frame (twoInput twoStreams) twoStreams.rings
      <+: frame (twoInput lastEvents) lastEvents.rings :=
    ⟨[], (List.append_nil _).trans hframe⟩
  exact ⟨by decide +kernel, request_self_delimiting inputFits_twoStreams inputFits_lastEvents hpre⟩

end Mawmaw.Executor
