import Mawmaw.Lib.Schedule
import Mawmaw.Core.WindowRegistry

/-!
# The overflow signal

`push` compares the head of the stream's ring with one minimum over the positions of all scripts.

* `RegistryCall`, `call` : the calls that move a ring or a position;
* `getGlobalMinReader_cases` : the minimum of the positions, and what it is without one;
* `Overwrites reg ring` : the next write takes a slot that a registered reader has not passed;
* `Measured reg ring` : some position is at most the head, or there is none and the ring is not
  full, or all are ahead of the head by more than the difference can tell;
* `signalExact_iff` : one push; `signals_exact_iff` : every run; `signal_false_alarms`.
-/

namespace Mawmaw.Core
open Mawmaw.Lib

variable {P : Nat}

inductive RegistryCall (P : Nat)
  | ensureStream (id : Str) (capacity : Capacity)
  | registerScript
  | scriptBeginRead (idx : Nat) (minSeq : UInt64)
  | push (ev : Event P)

namespace WindowRegistry

def call (reg : WindowRegistry P) : RegistryCall P → WindowRegistry P
  | .ensureStream id capacity => reg.ensureStream id capacity
  | .registerScript => reg.registerScript.2
  | .scriptBeginRead idx minSeq => reg.scriptBeginRead idx minSeq
  | .push ev => (reg.push ev).registry

/-- A position that stands for no reader, `UINT64_MAX`. -/
def noReader : UInt64 := 0xFFFFFFFFFFFFFFFF

theorem toNat_noReader : noReader.toNat = 2 ^ 64 - 1 := by decide

/-! ## The minimum of the positions -/

theorem foldl_min_spec (ps : List UInt64) : ∀ m : UInt64,
    let r := ps.foldl (fun m v => if v < m then v else m) m
    r ≤ m ∧ (∀ p ∈ ps, r ≤ p) ∧ (r = m ∨ r ∈ ps) := by
  induction ps with
  | nil =>
      intro m
      exact ⟨UInt64.le_refl m, fun p hp => absurd hp (List.not_mem_nil), Or.inl rfl⟩
  | cons v ps ih =>
      intro m
      obtain ⟨hle, hall, hmem⟩ := ih (if v < m then v else m)
      have hv : (if v < m then v else m) ≤ v ∧ (if v < m then v else m) ≤ m := by
        split
        · rename_i hlt
          exact ⟨UInt64.le_refl v, UInt64.le_of_lt hlt⟩
        · rename_i hge
          exact ⟨UInt64.not_lt.mp hge, UInt64.le_refl m⟩
      refine ⟨UInt64.le_trans hle hv.2, fun p hp => ?_, ?_⟩
      · rcases List.mem_cons.mp hp with rfl | hp
        · exact UInt64.le_trans hle hv.1
        · exact hall p hp
      · rcases hmem with heq | hin
        · rw [List.foldl_cons, heq]
          split
          · exact Or.inr (List.mem_cons_self ..)
          · exact Or.inl rfl
        · exact Or.inr (List.mem_cons_of_mem v hin)

/-- Without a reader the minimum is 0, else it is the lowest position. -/
theorem getGlobalMinReader_cases (reg : WindowRegistry P) :
    ((∀ p ∈ reg.scriptPositions, p = noReader) ∧ reg.getGlobalMinReader = 0) ∨
    (reg.getGlobalMinReader ∈ reg.scriptPositions ∧ reg.getGlobalMinReader ≠ noReader ∧
      ∀ p ∈ reg.scriptPositions, reg.getGlobalMinReader ≤ p) := by
  obtain ⟨-, hall, hmem⟩ := foldl_min_spec reg.scriptPositions noReader
  unfold getGlobalMinReader
  by_cases hnone : reg.scriptPositions.foldl (fun m v => if v < m then v else m) noReader = noReader
  · refine Or.inl ⟨fun p hp => ?_, if_pos hnone⟩
    have hle := UInt64.le_iff_toNat_le.mp (hall p hp)
    rw [hnone, toNat_noReader] at hle
    have hlt := p.toNat_lt
    apply UInt64.toNat_inj.mp
    rw [toNat_noReader]
    omega
  · refine Or.inr ?_
    rw [show (0xFFFFFFFFFFFFFFFF : UInt64) = noReader from rfl]
    simp only [if_neg hnone]
    exact ⟨hmem.resolve_left hnone, hnone, hall⟩

/-! ## One push -/

/-- The next write of the ring takes a slot whose item some registered reader has not passed. -/
def Overwrites (reg : WindowRegistry P) (ring : RingBuffer (Event P)) : Prop :=
  ring.capacity.size ≤ ring.head.toNat ∧
    ∃ p ∈ reg.scriptPositions, p.toNat ≤ ring.head.toNat - ring.capacity.size

/-- The item that a write to a full ring takes the slot of is the one a lap before the head. -/
theorem slotOf_head_sub_capacity (ring : RingBuffer (Event P))
    (h : ring.capacity.size ≤ ring.head.toNat) :
    ring.slotOf (UInt64.ofNat (ring.head.toNat - ring.capacity.size)) = ring.slotOf ring.head := by
  apply Fin.ext
  rw [ring.slotOf_val, ring.slotOf_val, RingBuffer.ofNat_mod, ← Nat.mod_eq_sub_mod h]

/-- When the difference between the head and the minimum is the lag of a reader. -/
def Measured (reg : WindowRegistry P) (ring : RingBuffer (Event P)) : Prop :=
  (∃ p ∈ reg.scriptPositions, p ≠ noReader ∧ p ≤ ring.head) ∨
  ((∀ p ∈ reg.scriptPositions, p = noReader) ∧ ring.head.toNat < ring.capacity.size) ∨
  ((∃ p ∈ reg.scriptPositions, p ≠ noReader) ∧
    ∀ p ∈ reg.scriptPositions, ring.head.toNat + 2 ^ 64 < p.toNat + ring.capacity.size)

theorem canWrite_iff (reg : WindowRegistry P) (ring : RingBuffer (Event P)) :
    reg.canWrite ring = true
      ↔ (ring.head - reg.getGlobalMinReader).toNat < ring.capacity.size := by
  rw [canWrite, decide_eq_true_iff, UInt64.lt_iff_toNat_lt, UInt64.toNat_ofNat',
    Nat.mod_eq_of_lt ring.capacity.size_lt]

/-- No reader: the head is compared with 0. -/
theorem canWrite_iff_of_none {reg : WindowRegistry P} (ring : RingBuffer (Event P))
    (hnone : ∀ p ∈ reg.scriptPositions, p = noReader) (hmin : reg.getGlobalMinReader = 0) :
    (reg.canWrite ring = false ↔ reg.Overwrites ring) ↔ reg.Measured ring := by
  have hover : ¬ reg.Overwrites ring := by
    rintro ⟨hfull, p, hp, hle⟩
    have hc := ring.capacity.size_pos
    have hlt := ring.head.toNat_lt
    rw [hnone p hp, toNat_noReader] at hle
    omega
  have hmeas : reg.Measured ring ↔ ring.head.toNat < ring.capacity.size := by
    constructor
    · rintro (⟨p, hp, hne, -⟩ | ⟨-, hlt⟩ | ⟨⟨p, hp, hne⟩, -⟩)
      · exact absurd (hnone p hp) hne
      · exact hlt
      · exact absurd (hnone p hp) hne
    · exact fun hlt => Or.inr (Or.inl ⟨hnone, hlt⟩)
  rw [hmeas, ← Bool.not_eq_true, canWrite_iff, hmin, UInt64.sub_zero]
  simp only [iff_false_right hover, not_not]

/-- The minimum is at most the head: the difference is the lag of the slowest reader. -/
theorem canWrite_iff_of_le {reg : WindowRegistry P} (ring : RingBuffer (Event P))
    (hmem : reg.getGlobalMinReader ∈ reg.scriptPositions)
    (hall : ∀ p ∈ reg.scriptPositions, reg.getGlobalMinReader ≤ p)
    (hle : reg.getGlobalMinReader ≤ ring.head) :
    reg.canWrite ring = false ↔ reg.Overwrites ring := by
  have hle' := UInt64.le_iff_toNat_le.mp hle
  rw [← Bool.not_eq_true, canWrite_iff, UInt64.toNat_sub_of_le _ _ hle]
  constructor
  · intro hlag
    exact ⟨by omega, reg.getGlobalMinReader, hmem, by omega⟩
  · rintro ⟨hfull, p, hp, hpos⟩
    have := UInt64.le_iff_toNat_le.mp (hall p hp)
    omega

/-- Every position is ahead of the head: nothing is lost, and the difference wraps. -/
theorem canWrite_iff_of_lt {reg : WindowRegistry P} (ring : RingBuffer (Event P))
    (hmem : reg.getGlobalMinReader ∈ reg.scriptPositions)
    (hne : reg.getGlobalMinReader ≠ noReader)
    (hall : ∀ p ∈ reg.scriptPositions, reg.getGlobalMinReader ≤ p)
    (hlt : ring.head < reg.getGlobalMinReader) :
    (reg.canWrite ring = false ↔ reg.Overwrites ring) ↔ reg.Measured ring := by
  have hlt' := UInt64.lt_iff_toNat_lt.mp hlt
  have hbound := reg.getGlobalMinReader.toNat_lt
  have hover : ¬ reg.Overwrites ring := by
    rintro ⟨hfull, p, hp, hle⟩
    have := UInt64.le_iff_toNat_le.mp (hall p hp)
    omega
  have hdiff : (ring.head - reg.getGlobalMinReader).toNat
      = ring.head.toNat + 2 ^ 64 - reg.getGlobalMinReader.toNat := by
    rw [UInt64.toNat_sub]
    omega
  rw [← Bool.not_eq_true, canWrite_iff, hdiff]
  simp only [iff_false_right hover, not_not]
  constructor
  · intro hclose
    refine Or.inr (Or.inr ⟨⟨_, hmem, hne⟩, fun p hp => ?_⟩)
    have := UInt64.le_iff_toNat_le.mp (hall p hp)
    omega
  · rintro (⟨p, hp, -, hle⟩ | ⟨hnone, -⟩ | ⟨-, hahead⟩)
    · have hmin := UInt64.le_iff_toNat_le.mp (hall p hp)
      have := UInt64.le_iff_toNat_le.mp hle
      omega
    · exact absurd (hnone _ hmem) hne
    · have := hahead _ hmem
      omega

theorem canWrite_exact_iff (reg : WindowRegistry P) (ring : RingBuffer (Event P)) :
    (reg.canWrite ring = false ↔ reg.Overwrites ring) ↔ reg.Measured ring := by
  rcases reg.getGlobalMinReader_cases with ⟨hnone, hmin⟩ | ⟨hmem, hne, hall⟩
  · exact canWrite_iff_of_none ring hnone hmin
  · by_cases hle : reg.getGlobalMinReader ≤ ring.head
    · exact iff_of_true (canWrite_iff_of_le ring hmem hall hle)
        (Or.inl ⟨_, hmem, hne, hle⟩)
    · exact canWrite_iff_of_lt ring hmem hne hall (UInt64.not_le.mp hle)

end WindowRegistry

/-! ## Runs -/

namespace RegistryCall

/-- A push records a drop exactly if its write overwrites an item a reader has not passed. -/
def SignalExact (reg : WindowRegistry P) : RegistryCall P → Prop
  | .push ev => (reg.push ev).dropped = true
      ↔ ∃ sr, reg.rings.lookup ev.stream = some sr ∧ reg.Overwrites sr.ring
  | .ensureStream _ _ => True
  | .registerScript => True
  | .scriptBeginRead _ _ => True

/-- A push to a ring whose head the minimum can be compared with. -/
def Measured (reg : WindowRegistry P) : RegistryCall P → Prop
  | .push ev => ∀ sr, reg.rings.lookup ev.stream = some sr → reg.Measured sr.ring
  | .ensureStream _ _ => True
  | .registerScript => True
  | .scriptBeginRead _ _ => True

theorem telemetry_call (reg : WindowRegistry P) (c : RegistryCall P) :
    (reg.call c).telemetry = reg.telemetry := by
  cases c with
  | ensureStream id capacity =>
      simp only [WindowRegistry.call, WindowRegistry.ensureStream]
      split <;> rfl
  | registerScript => rfl
  | scriptBeginRead idx minSeq => rfl
  | push ev =>
      simp only [WindowRegistry.call, WindowRegistry.push]
      split <;> rfl

theorem signalExact_iff {reg : WindowRegistry P} (htel : reg.telemetry = true)
    (c : RegistryCall P) : SignalExact reg c ↔ Measured reg c := by
  cases c with
  | ensureStream id capacity => exact Iff.rfl
  | registerScript => exact Iff.rfl
  | scriptBeginRead idx minSeq => exact Iff.rfl
  | push ev =>
      cases hsr : reg.rings.lookup ev.stream with
      | none => simp [SignalExact, Measured, WindowRegistry.push, hsr]
      | some sr =>
          have hdrop : (reg.push ev).dropped = !reg.canWrite sr.ring := by
            simp [WindowRegistry.push, hsr, htel]
          unfold SignalExact Measured
          simp only [hdrop, hsr, Bool.not_eq_true', Option.some.injEq, exists_eq_left', forall_eq']
          exact reg.canWrite_exact_iff sr.ring

/-- **The overflow signal.** In every run of calls on a registry with telemetry, every push records
a drop exactly when its write overwrites an item that a registered reader has not passed, if and
only if every push is to a ring the minimum can be compared with. -/
theorem signals_exact_iff (calls : List (RegistryCall P)) :
    Along WindowRegistry.call SignalExact { telemetry := true } calls
      ↔ Along WindowRegistry.call Measured { telemetry := true } calls := by
  have hkeep : ∀ (reg : WindowRegistry P) c, reg.telemetry = true → (reg.call c).telemetry = true :=
    fun reg c htel => (telemetry_call reg c).trans htel
  have hfresh : ({ telemetry := true } : WindowRegistry P).telemetry = true := rfl
  exact Along.iff hkeep (fun _ c htel => signalExact_iff htel c) hfresh

/-- Two false alarms on a ring of capacity 1: the second push while no script is registered, and the
first push while the only script reads far ahead on another stream. -/
theorem signal_false_alarms :
    ¬ Along WindowRegistry.call SignalExact ({ telemetry := true } : WindowRegistry 4)
      [.ensureStream (lit "s") ⟨0, by decide⟩, .push (({} : Event 4).setStream (lit "s")),
        .push (({} : Event 4).setStream (lit "s"))] ∧
    ¬ Along WindowRegistry.call SignalExact ({ telemetry := true } : WindowRegistry 4)
      [.ensureStream (lit "s") ⟨0, by decide⟩, .registerScript, .scriptBeginRead 0 5,
        .push (({} : Event 4).setStream (lit "s"))] := by
  constructor
  · rintro ⟨-, -, hpush, -⟩
    obtain ⟨sr, -, -, p, hp, -⟩ := hpush.mp (by decide +kernel)
    exact List.not_mem_nil hp
  · rintro ⟨-, -, -, hpush, -⟩
    obtain ⟨sr, hsr, hfull, -⟩ := hpush.mp (by decide +kernel)
    obtain rfl : sr = ⟨lit "s", RingBuffer.new ⟨0, by decide⟩⟩ := (Option.some.inj hsr).symm
    exact absurd hfull (by decide)

end RegistryCall

end Mawmaw.Core
