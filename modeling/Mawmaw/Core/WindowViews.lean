import Mawmaw.Lib.Schedule
import Mawmaw.Core.WindowBounds

/-!
# The two inputs of a script see the same window

Histories of a registry: streams are created and events pushed.

* `RegistryRun` : the registry with the log of the events its rings were given, each with the
  sequence number `push` returned; `pushedTo s sid` : the part of stream `sid`;
* `RegistryRun.Inv` : each ring holds its part of the log; kept by every operation;
* `RingView.readsBack` : a view indexed from its last event to its first;
* `RingView.events_eq_drop` : a view of at most one lap reads the last events of the log;
* `windows_agree` : the zero-copy view and the snapshot copy of a stream.
-/

namespace Mawmaw.Core
open Mawmaw.Lib

variable {P : Nat}

/-! ## Views of a ring -/

namespace RingView

/-- `view[size - 1], ..., view[1], view[0]`. -/
def readsBack {T : Type} (v : RingView) (ring : RingBuffer T) : List (Option T) :=
  (List.range v.size.toNat).reverse.map fun i => v.get ring (UInt64.ofNat i)

theorem toNat_size {v : RingView} (h : v.beginSeq ≤ v.endSeq) :
    v.size.toNat = v.endSeq.toNat - v.beginSeq.toNat := by
  have hle := UInt64.le_iff_toNat_le.mp h
  unfold size
  split
  · exact UInt64.toNat_sub_of_le _ _ h
  · rename_i hnot
    rw [gt_iff_lt, UInt64.lt_iff_toNat_lt] at hnot
    show 0 = _
    omega

theorem toNat_seq {v : RingView} {i : Nat} (h : v.beginSeq.toNat + i < v.endSeq.toNat) :
    (UInt64.ofNat (v.beginSeq.toNat + i)).toNat = v.beginSeq.toNat + i := by
  have := v.endSeq.toNat_lt
  rw [UInt64.toNat_ofNat', Nat.mod_eq_of_lt (by omega)]

/-- Every sequence number of a view that ends at the head is readable. -/
theorem read_seqs {T : Type} {v : RingView} {ring : RingBuffer T} (h : v.endSeq = ring.head) :
    ∀ seq ∈ v.seqs, ring.read seq = some (ring.slot seq) := by
  intro seq hseq
  obtain ⟨s, hs, rfl⟩ := List.mem_map.mp hseq
  obtain ⟨i, hi, rfl⟩ := List.mem_range'.mp hs
  apply ring.read_of_lt
  rw [Nat.one_mul, toNat_seq (by omega)]
  show _ < ring.head.toNat
  rw [← h]
  omega

theorem events_eq_map {v : RingView} {ring : RingBuffer (Event P)} (h : v.endSeq = ring.head) :
    v.events ring = v.seqs.map ring.slot := by
  rw [events, ← List.filterMap_eq_map]
  exact List.filterMap_congr (read_seqs h)

/-- The view read newest first and the copy made oldest first are one list. -/
theorem readsBack_eq {v : RingView} {ring : RingBuffer (Event P)} (hle : v.beginSeq ≤ v.endSeq)
    (hend : v.endSeq = ring.head) : v.readsBack ring = (v.events ring).map some := by
  have hb := UInt64.le_iff_toNat_le.mp hle
  have he := v.endSeq.toNat_lt
  have hreads : (v.events ring).map some = v.seqs.map ring.read := by
    rw [events_eq_map hend, List.map_map]
    exact List.map_congr_left fun seq hseq => (read_seqs hend seq hseq).symm
  rw [hreads]
  apply List.ext_getElem
  · simp [readsBack, seqs, toNat_size hle]
  · intro i h₁ h₂
    have hi : i < v.endSeq.toNat - v.beginSeq.toNat := by simpa [seqs] using h₂
    have hseq : v.endSeq - 1 - UInt64.ofNat (v.size.toNat - 1 - i)
        = UInt64.ofNat (v.beginSeq.toNat + i) := by
      apply UInt64.toNat_inj.mp
      rw [toNat_seq (by omega), toNat_size hle, UInt64.toNat_sub_of_le, UInt64.toNat_sub_of_le,
        UInt64.toNat_one, UInt64.toNat_ofNat', Nat.mod_eq_of_lt (by omega)]
      · omega
      · rw [UInt64.le_iff_toNat_le, UInt64.toNat_one]
        omega
      · rw [UInt64.le_iff_toNat_le, UInt64.toNat_sub_of_le, UInt64.toNat_one, UInt64.toNat_ofNat',
          Nat.mod_eq_of_lt (by omega)]
        · omega
        · rw [UInt64.le_iff_toNat_le, UInt64.toNat_one]
          omega
    have hin : ¬ UInt64.ofNat (v.beginSeq.toNat + i) < v.beginSeq := by
      rw [UInt64.lt_iff_toNat_lt, toNat_seq (by omega)]
      omega
    simp only [readsBack, seqs, List.getElem_map, List.getElem_reverse, List.getElem_range,
      List.length_range, List.getElem_range', Nat.one_mul, get, hseq, if_neg hin]

/-- A view of at most one lap that ends at the head reads the last items the ring was given. -/
theorem events_eq_drop {v : RingView} {ring : RingBuffer (Event P)} {hist : List (Event P)}
    (h : ring.Holds hist) (hle : v.beginSeq ≤ v.endSeq) (hend : v.endSeq = ring.head)
    (hlap : v.size.toNat ≤ ring.capacity.size) :
    v.size.toNat ≤ hist.length ∧ v.events ring = hist.drop (hist.length - v.size.toNat) ∧
      v.seqs = ((List.range hist.length).map UInt64.ofNat).drop (hist.length - v.size.toNat) := by
  have hsize := toNat_size hle
  have hb := UInt64.le_iff_toNat_le.mp hle
  have hhead : v.endSeq.toNat = hist.length % 2 ^ 64 := by
    rw [hend]
    exact h.toNat_writeSeq
  have hle' : v.size.toNat ≤ hist.length := by
    have := Nat.mod_le hist.length (2 ^ 64)
    omega
  -- the sequence numbers of the view are those of the last items, also once the counter has wrapped
  have hseqs : v.seqs
      = (List.range' (hist.length - v.size.toNat) v.size.toNat).map UInt64.ofNat := by
    apply List.ext_getElem
    · simp [seqs, hsize]
    · intro i h₁ h₂
      have hi : i < v.size.toNat := by simpa using h₂
      simp only [seqs, List.getElem_map, List.getElem_range', Nat.one_mul]
      apply UInt64.toNat_inj.mp
      rw [UInt64.toNat_ofNat', UInt64.toNat_ofNat']
      omega
  refine ⟨hle', ?_, ?_⟩
  · rw [events_eq_map hend, hseqs, List.map_map]
    apply List.ext_getElem
    · simp
      omega
    · intro i h₁ h₂
      have hi : i < v.size.toNat := by simpa using h₁
      simp only [List.getElem_map, List.getElem_range', Nat.one_mul, Function.comp_apply,
        List.getElem_drop]
      exact h.slots _ (by omega) (by omega)
  · rw [hseqs, ← List.map_drop, List.range_eq_range', List.drop_range', Nat.mul_one, Nat.zero_add]
    congr 2
    omega

end RingView

/-! ## Histories -/

inductive RegistryOp (P : Nat)
  | ensureStream (id : Str) (capacity : Capacity)
  | push (ev : Event P)

/-- `log` has the events written to the rings, oldest first, with the numbers `push` returned. -/
structure RegistryRun (P : Nat) where
  registry : WindowRegistry P
  log : List (UInt64 × Event P) := []

namespace RegistryRun

/-- A registry without streams. -/
def fresh (scriptPositions : List UInt64) (telemetry : Bool) : RegistryRun P :=
  { registry := { scriptPositions, telemetry } }

def push (s : RegistryRun P) (ev : Event P) : RegistryRun P :=
  match s.registry.rings.lookup ev.stream with
  | none => { s with registry := (s.registry.push ev).registry }
  | some _ =>
    { registry := (s.registry.push ev).registry
      log := s.log ++ [((s.registry.push ev).seq, ev)] }

def step (s : RegistryRun P) : RegistryOp P → RegistryRun P
  | .ensureStream id capacity => { s with registry := s.registry.ensureStream id capacity }
  | .push ev => s.push ev

def run (s : RegistryRun P) (ops : List (RegistryOp P)) : RegistryRun P := ops.foldl step s

/-- What was written to the ring of stream `sid`, oldest first. -/
def pushedTo (s : RegistryRun P) (sid : Str) : List (UInt64 × Event P) :=
  s.log.filter fun w => w.2.stream = sid

/-! ## The invariant -/

/-- Each ring holds what was pushed to its stream, numbered from zero on. -/
structure Inv (s : RegistryRun P) : Prop where
  holds : ∀ sid sr, s.registry.rings.lookup sid = some sr →
    sr.ring.Holds ((s.pushedTo sid).map Prod.snd)
  seqs : ∀ sid, (s.pushedTo sid).map Prod.fst
    = (List.range (s.pushedTo sid).length).map UInt64.ofNat
  unseen : ∀ sid, s.registry.rings.lookup sid = none → s.pushedTo sid = []

theorem inv_fresh (scriptPositions : List UInt64) (telemetry : Bool) :
    Inv (fresh scriptPositions telemetry : RegistryRun P) where
  holds _ _ h := by cases h
  seqs _ := rfl
  unseen _ _ := rfl

theorem Inv.ensureStream {s : RegistryRun P} (h : Inv s) (id : Str) (capacity : Capacity) :
    Inv (s.step (.ensureStream id capacity)) := by
  cases hid : s.registry.rings.lookup id with
  | some sr =>
      have hsame : s.registry.ensureStream id capacity = s.registry := by
        simp [WindowRegistry.ensureStream, hid]
      rw [step, hsame]
      exact h
  | none =>
      have hnew : (s.registry.ensureStream id capacity).rings
          = s.registry.rings.insert id ⟨id, RingBuffer.new capacity⟩ := by
        simp [WindowRegistry.ensureStream, hid]
      refine ⟨fun sid sr hsr => ?_, h.seqs, fun sid hsid => ?_⟩
      · rw [step, hnew] at hsr
        by_cases hs : sid = id
        · rw [hs, AList.lookup_insert, Option.some.injEq] at hsr
          subst hsr
          show RingBuffer.Holds _ ((s.pushedTo sid).map Prod.snd)
          rw [hs, h.unseen id hid]
          exact RingBuffer.holds_new capacity
        · rw [AList.lookup_insert_ne hs] at hsr
          exact h.holds sid sr hsr
      · rw [step, hnew] at hsid
        by_cases hs : sid = id
        · rw [hs, AList.lookup_insert] at hsid
          cases hsid
        · rw [AList.lookup_insert_ne hs] at hsid
          exact h.unseen sid hsid

theorem pushedTo_push {s : RegistryRun P} {ev : Event P} {sr : StreamRing P}
    (hsr : s.registry.rings.lookup ev.stream = some sr) (sid : Str) :
    (s.push ev).pushedTo sid
      = if ev.stream = sid then s.pushedTo sid ++ [(sr.ring.writeSeq, ev)]
        else s.pushedTo sid := by
  have hseq : (s.registry.push ev).seq = sr.ring.writeSeq := by
    simp [WindowRegistry.push, hsr]
  simp only [push, hsr, hseq, pushedTo, List.filter_append]
  split
  · rename_i hs
    simp [hs]
  · rename_i hs
    simp [hs]

theorem Inv.push {s : RegistryRun P} (h : Inv s) (ev : Event P) : Inv (s.push ev) := by
  cases hev : s.registry.rings.lookup ev.stream with
  | none =>
      have hsame : s.push ev = s := by
        simp only [RegistryRun.push, hev, WindowRegistry.push_of_no_ring hev]
      rw [hsame]
      exact h
  | some sr =>
      have hrings : (s.push ev).registry.rings
          = s.registry.rings.insert ev.stream { sr with ring := (sr.ring.write ev).2 } := by
        simp [RegistryRun.push, WindowRegistry.push, hev]
      refine ⟨fun sid sr' hsr' => ?_, fun sid => ?_, fun sid hsid => ?_⟩
      · rw [hrings] at hsr'
        rw [pushedTo_push hev]
        by_cases hs : ev.stream = sid
        · rw [← hs, AList.lookup_insert, Option.some.injEq] at hsr'
          subst hsr'
          rw [if_pos hs, List.map_append, ← hs]
          exact (h.holds _ sr hev).write ev
        · rw [AList.lookup_insert_ne (Ne.symm hs)] at hsr'
          rw [if_neg hs]
          exact h.holds sid sr' hsr'
      · rw [pushedTo_push hev]
        split
        · rename_i hs
          have hseq := (h.holds _ sr hev).seq
          rw [List.length_map, hs] at hseq
          rw [List.map_append, h.seqs sid, List.length_append, List.length_singleton,
            List.range_succ, List.map_append, List.map_singleton, List.map_singleton, hseq]
        · exact h.seqs sid
      · rw [hrings] at hsid
        by_cases hs : ev.stream = sid
        · rw [← hs, AList.lookup_insert] at hsid
          cases hsid
        · rw [AList.lookup_insert_ne (Ne.symm hs)] at hsid
          rw [pushedTo_push hev, if_neg hs]
          exact h.unseen sid hsid

theorem inv_step (s : RegistryRun P) (op : RegistryOp P) (h : Inv s) : Inv (s.step op) := by
  cases op with
  | ensureStream id capacity => exact h.ensureStream id capacity
  | push ev => exact h.push ev

theorem inv_run (s : RegistryRun P) (ops : List (RegistryOp P)) (h : Inv s) : Inv (s.run ops) :=
  foldl_keeps inv_step ops s h

/-- The events of stream `sid` a view that ends at the head stands for: the last ones pushed, with
the sequence numbers `begin .. end - 1`. -/
def Names (s : RegistryRun P) (sid : Str) (v : RingView) (events : List (Event P)) : Prop :=
  ∃ older window, s.pushedTo sid = older ++ window ∧ window.map Prod.fst = v.seqs ∧
    window.map Prod.snd = events

theorem Inv.names {s : RegistryRun P} (h : Inv s) {sid : Str} {sr : StreamRing P}
    (hsr : s.registry.rings.lookup sid = some sr) {v : RingView} (hle : v.beginSeq ≤ v.endSeq)
    (hend : v.endSeq = sr.ring.head) (hlap : v.size.toNat ≤ sr.ring.capacity.size) :
    s.Names sid v (v.events sr.ring) := by
  obtain ⟨-, hevents, hseqs⟩ := RingView.events_eq_drop (h.holds sid sr hsr) hle hend hlap
  rw [List.length_map] at hevents hseqs
  refine ⟨(s.pushedTo sid).take ((s.pushedTo sid).length - v.size.toNat),
    (s.pushedTo sid).drop ((s.pushedTo sid).length - v.size.toNat),
    (List.take_append_drop _ _).symm, ?_, ?_⟩
  · rw [List.map_drop, h.seqs sid, hseqs]
  · rw [List.map_drop, hevents]

/-- **One window, two inputs.** After every history, both inputs have a window for the same streams,
the snapshot lists the view from its last index to its first, and a view of at most one lap is the
last events pushed to its stream. -/
theorem windows_agree (scriptPositions : List UInt64) (telemetry : Bool)
    (ops : List (RegistryOp P)) (trigger : Event P) (subs : UMap Str WindowSpec) (idx : Nat)
    (sid : Str) :
    let s := (fresh scriptPositions telemetry : RegistryRun P).run ops
    let views := (s.registry.makeZeroCopyInput trigger subs).windows
    let copies := (s.registry.makeSnapshotInput trigger subs idx).windows
    (views.lookup sid = none ∧ copies.lookup sid = none) ∨
      ∃ v events sr, views.lookup sid = some v ∧ copies.lookup sid = some events ∧
        s.registry.rings.lookup sid = some sr ∧ events.map some = v.readsBack sr.ring ∧
        (v.size.toNat ≤ sr.ring.capacity.size → s.Names sid v events) := by
  intro s views copies
  have hinv : Inv s := inv_run _ ops (inv_fresh scriptPositions telemetry)
  have hviews := s.registry.lookup_makeZeroCopyInput trigger subs sid
  have hcopies := s.registry.lookup_makeSnapshotInput trigger subs idx sid
  cases hsub : subs.lookup sid with
  | none =>
      rw [hsub] at hviews hcopies
      exact Or.inl ⟨hviews, hcopies⟩
  | some spec =>
      cases hsr : s.registry.rings.lookup sid with
      | none =>
          rw [hsub, hsr] at hviews hcopies
          exact Or.inl ⟨hviews, hcopies⟩
      | some sr =>
          rw [hsub, hsr] at hviews hcopies
          have hle := windowBounds_begin_le sr.ring spec trigger.timestampNs
          exact Or.inr ⟨_, _, sr, hviews, hcopies, rfl, (RingView.readsBack_eq hle rfl).symm,
            fun hlap => hinv.names hsr hle rfl hlap⟩

end RegistryRun

end Mawmaw.Core
