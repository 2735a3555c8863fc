import Mawmaw.Lib.Circular

/-!
# The ring buffer

* `Capacity` : a capacity the constructor's assertion accepts, a power of two that fits `size_t`;
* `RingBuffer` : the slots and the 64-bit write counter; `write`, `read`, `head`;
* `RingView` : the bounds of a window of a ring;
* `Holds r hist` : `r` is the ring after the items `hist` were written, in order (the abstract
  ring: a log of everything ever written); `holds_new`, `Holds.write`;
* `Holds.slot` : the slot of a position holds the latest item of that slot.
-/

namespace Mawmaw.Core
open Mawmaw.Lib

/-- A positive power of two below `2 ^ 64`. -/
structure Capacity where
  log : Nat
  log_lt : log < 64
  deriving DecidableEq, Repr

namespace Capacity

def ofLog (k : Fin 64) : Capacity := ⟨k, k.isLt⟩

/-! Small ones, for examples. -/

def one : Capacity := ⟨0, by decide⟩

def two : Capacity := ⟨1, by decide⟩

def four : Capacity := ⟨2, by decide⟩

def size (c : Capacity) : Nat := 2 ^ c.log

def mask (c : Capacity) : UInt64 := UInt64.ofNat (c.size - 1)

theorem size_pos (c : Capacity) : 0 < c.size := Nat.two_pow_pos c.log

theorem size_dvd (c : Capacity) : c.size ∣ 2 ^ 64 := Nat.pow_dvd_pow 2 (le_of_lt c.log_lt)

theorem size_lt (c : Capacity) : c.size < 2 ^ 64 :=
  Nat.pow_lt_pow_right (by decide) c.log_lt

theorem size_le (c : Capacity) : c.size ≤ 2 ^ 63 :=
  Nat.pow_le_pow_right (by decide) (Nat.le_of_lt_succ c.log_lt)

theorem and_mask (c : Capacity) (seq : UInt64) : (seq &&& c.mask).toNat = seq.toNat % c.size := by
  have hmask : c.mask.toNat = 2 ^ c.log - 1 := by
    rw [mask, UInt64.toNat_ofNat', Nat.mod_eq_of_lt (by have := c.size_lt; omega), size]
  rw [UInt64.toNat_and, hmask, Nat.and_two_pow_sub_one_eq_mod, size]

end Capacity

/-- `RingBuffer<T>`. -/
structure RingBuffer (T : Type) where
  capacity : Capacity
  slots : Vector T capacity.size
  writeSeq : UInt64
  deriving DecidableEq, Repr

namespace RingBuffer
variable {T : Type}

def new [Inhabited T] (capacity : Capacity) : RingBuffer T :=
  { capacity, slots := Vector.replicate capacity.size default, writeSeq := 0 }

/-- `seq & mask_`. -/
def slotOf (r : RingBuffer T) (seq : UInt64) : Fin r.capacity.size :=
  ⟨(seq &&& r.capacity.mask).toNat, by
    rw [r.capacity.and_mask]
    exact Nat.mod_lt _ r.capacity.size_pos⟩

/-- `slots_[seq & mask_]`. -/
def slot (r : RingBuffer T) (seq : UInt64) : T := r.slots.get (r.slotOf seq)

/-- Stores the item and then the incremented counter; returns the sequence number assigned. -/
def write (r : RingBuffer T) (item : T) : UInt64 × RingBuffer T :=
  let seq := r.writeSeq
  (seq, { r with slots := r.slots.set (r.slotOf seq) item, writeSeq := seq + 1 })

/-- `none` if `seq` has not been written yet, else the item in its slot. -/
def read (r : RingBuffer T) (seq : UInt64) : Option T :=
  if seq ≥ r.writeSeq then none else some (r.slot seq)

def head (r : RingBuffer T) : UInt64 := r.writeSeq

@[simp] theorem write_fst (r : RingBuffer T) (x : T) : (r.write x).1 = r.writeSeq := rfl

@[simp] theorem write_capacity (r : RingBuffer T) (x : T) :
    (r.write x).2.capacity = r.capacity := rfl

@[simp] theorem write_writeSeq (r : RingBuffer T) (x : T) :
    (r.write x).2.writeSeq = r.writeSeq + 1 := rfl

theorem slotOf_val (r : RingBuffer T) (seq : UInt64) :
    (r.slotOf seq).val = seq.toNat % r.capacity.size := r.capacity.and_mask seq

/-- The counter wraps at `2 ^ 64`, a multiple of the capacity, so the slots do not shift. -/
theorem ofNat_mod (c : Capacity) (n : Nat) : (UInt64.ofNat n).toNat % c.size = n % c.size := by
  rw [UInt64.toNat_ofNat', Nat.mod_mod_of_dvd _ c.size_dvd]

/-- The sequence number `p` writes after `h`. -/
def seqAt (h : UInt64) (p : Nat) : UInt64 := h + UInt64.ofNat p

theorem seqAt_add_one (h : UInt64) (p : Nat) : seqAt h p + 1 = seqAt h (p + 1) := by
  rw [seqAt, seqAt, UInt64.ofNat_add, UInt64.add_assoc]
  rfl

theorem toNat_seqAt (h : UInt64) (p : Nat) : (seqAt h p).toNat = (h.toNat + p) % 2 ^ 64 := by
  rw [seqAt, UInt64.toNat_add, UInt64.toNat_ofNat', Nat.add_mod_mod]

theorem seqAt_mod (c : Capacity) (h : UInt64) (p : Nat) :
    (seqAt h p).toNat % c.size = (h.toNat + p) % c.size := by
  rw [toNat_seqAt, Nat.mod_mod_of_dvd _ c.size_dvd]

theorem seqAt_ne (h : UInt64) {p q : Nat} (hpq : p < q) (hq : q < p + 2 ^ 64) :
    seqAt h p ≠ seqAt h q := by
  intro heq
  have hmod := congrArg UInt64.toNat heq
  rw [toNat_seqAt, toNat_seqAt] at hmod
  have := eq_of_mod_eq hmod (by omega) (by omega)
  omega

theorem slot_congr (r : RingBuffer T) {a b : UInt64}
    (h : a.toNat % r.capacity.size = b.toNat % r.capacity.size) : r.slot a = r.slot b := by
  have hslot : r.slotOf a = r.slotOf b := Fin.ext (by rw [slotOf_val, slotOf_val, h])
  rw [slot, slot, hslot]

/-- A write changes the slot of its own sequence number and no other. -/
theorem slot_write (r : RingBuffer T) (x : T) (seq : UInt64) :
    (r.write x).2.slot seq = if seq.toNat % r.capacity.size = r.writeSeq.toNat % r.capacity.size
      then x else r.slot seq := by
  have hset : (r.write x).2.slot seq
      = if (r.slotOf r.writeSeq).val = (r.slotOf seq).val then x else r.slot seq :=
    Vector.getElem_set (r.slotOf r.writeSeq).isLt (r.slotOf seq).isLt
  rw [hset, slotOf_val, slotOf_val]
  exact if_congr eq_comm rfl rfl

theorem read_of_lt (r : RingBuffer T) {seq : UInt64} (h : seq.toNat < r.writeSeq.toNat) :
    r.read seq = some (r.slot seq) := by
  rw [read, if_neg]
  simpa [UInt64.le_iff_toNat_le] using h

theorem read_of_le (r : RingBuffer T) {seq : UInt64} (h : r.writeSeq.toNat ≤ seq.toNat) :
    r.read seq = none := by
  rw [read, if_pos]
  exact UInt64.le_iff_toNat_le.mpr h

/-! ## The log a ring has been given -/

/-- `r` is the ring after the items `hist` were written to it, in order. -/
structure Holds (r : RingBuffer T) (hist : List T) : Prop where
  seq : r.writeSeq = UInt64.ofNat hist.length
  slots : ∀ (j : Nat) (h : j < hist.length), hist.length ≤ j + r.capacity.size →
    r.slot (UInt64.ofNat j) = hist[j]

theorem holds_new [Inhabited T] (c : Capacity) : Holds (new c : RingBuffer T) [] :=
  ⟨rfl, fun _ h => absurd h (Nat.not_lt_zero _)⟩

theorem Holds.write {r : RingBuffer T} {hist : List T} (h : Holds r hist) (x : T) :
    Holds (r.write x).2 (hist ++ [x]) := by
  have hc := r.capacity.size_pos
  refine ⟨?_, fun j hj hlap => ?_⟩
  · rw [write_writeSeq, h.seq, List.length_append, List.length_singleton, UInt64.ofNat_add]
    rfl
  · rw [write_capacity, List.length_append, List.length_singleton] at hlap
    rw [List.length_append, List.length_singleton] at hj
    rw [slot_write, h.seq, ofNat_mod, ofNat_mod]
    rcases Nat.lt_or_ge j hist.length with hlt | hge
    · have hne : j % r.capacity.size ≠ hist.length % r.capacity.size := by
        intro heq
        have := eq_of_mod_eq heq (by omega) (by omega)
        omega
      rw [if_neg hne, List.getElem_append_left hlt]
      exact h.slots j hlt (by omega)
    · have hj' : j = hist.length := by omega
      subst hj'
      rw [if_pos rfl]
      simp

def writeAll (r : RingBuffer T) (xs : List T) : RingBuffer T :=
  xs.foldl (fun r x => (r.write x).2) r

@[simp] theorem writeAll_capacity (r : RingBuffer T) (xs : List T) :
    (r.writeAll xs).capacity = r.capacity := by
  induction xs generalizing r with
  | nil => rfl
  | cons x xs ih => exact (ih (r.write x).2).trans (write_capacity r x)

theorem Holds.writeAll {r : RingBuffer T} {hist : List T} (h : Holds r hist) (xs : List T) :
    Holds (r.writeAll xs) (hist ++ xs) := by
  induction xs generalizing r hist with
  | nil => simpa [RingBuffer.writeAll] using h
  | cons x xs ih =>
      have := ih (h.write x)
      rwa [List.append_assoc, List.singleton_append] at this

theorem Holds.slot {r : RingBuffer T} {hist : List T} (h : Holds r hist) {s : Nat}
    (hs : s < hist.length) :
    r.slot (UInt64.ofNat s) = hist.get ⟨latest r.capacity.size hist.length s, latest_lt hs⟩ := by
  have hsame : r.slot (UInt64.ofNat s)
      = r.slot (UInt64.ofNat (latest r.capacity.size hist.length s)) :=
    r.slot_congr (by rw [ofNat_mod, ofNat_mod, latest_mod])
  rw [hsame]
  exact h.slots _ (latest_lt hs) (le_latest_add r.capacity.size_pos hs)

theorem Holds.read {r : RingBuffer T} {hist : List T} (h : Holds r hist) {seq : UInt64}
    (hlt : seq.toNat < r.writeSeq.toNat) (hs : seq.toNat < hist.length) :
    r.read seq
      = some (hist.get ⟨latest r.capacity.size hist.length seq.toNat, latest_lt hs⟩) := by
  have hslot := h.slot hs
  rw [UInt64.ofNat_toNat] at hslot
  rw [r.read_of_lt hlt, hslot]

theorem Holds.toNat_writeSeq {r : RingBuffer T} {hist : List T} (h : Holds r hist) :
    r.writeSeq.toNat = hist.length % 2 ^ 64 := by
  rw [h.seq, UInt64.toNat_ofNat']

end RingBuffer

/-- `RingView<T>`: the bounds of a window; `ring`, the pointer to the ring, is an argument of the
functions that follow it. -/
structure RingView where
  beginSeq : UInt64 := 0
  endSeq : UInt64 := 0
  deriving DecidableEq, Repr

namespace RingView

def size (v : RingView) : UInt64 := if v.endSeq > v.beginSeq then v.endSeq - v.beginSeq else 0

/-- `view[i]`, newest first. -/
def get {T : Type} (v : RingView) (ring : RingBuffer T) (i : UInt64) : Option T :=
  let seq := v.endSeq - 1 - i
  if seq < v.beginSeq then none else ring.read seq

end RingView

end Mawmaw.Core
