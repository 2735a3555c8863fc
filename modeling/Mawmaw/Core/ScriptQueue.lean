import Mathlib.Data.List.NodupEquivFin
import Mawmaw.Core.StreamRouter

/-!
# A script queue under load

Runs of one queue: its producer enqueues, its worker calls `wait_for_trigger`.

* `QueueRun` : the queue with the events enqueued and returned so far; `laps` records, for each
  returned event, how often the slot had been overwritten when it was read;
* `QueueRun.Inv` : the `k`-th event returned is the one enqueued at position
  `k + capacity * laps[k]`; kept by every step (`inv_step`, `inv_run`);
* `sublist_of_laps`, `laps_of_sublist` : delivery in order is laps in order;
* `returned_eq_take` : a worker never lapped gets the events enqueued, in order.
-/

namespace Mawmaw.Core
open Mawmaw.Lib

variable {P : Nat}

/-- One atomic step at a queue. -/
inductive QueueOp (P : Nat)
  | enqueue (ev : Event P)
  | wait
  deriving DecidableEq

structure QueueRun (P : Nat) where
  queue : ScriptQueue P
  readPos : UInt64 := 0
  enqueued : List (Event P) := []
  returned : List (Event P) := []
  laps : List Nat := []

namespace QueueRun

def init (capacity : Capacity) : QueueRun P := { queue := { ring := RingBuffer.new capacity } }

/-- One step; a call that stays blocked changes nothing. -/
def step (s : QueueRun P) : QueueOp P → QueueRun P
  | .enqueue ev => { s with queue := s.queue.enqueue ev, enqueued := s.enqueued ++ [ev] }
  | .wait =>
    match s.queue.waitForTrigger s.readPos with
    | .blocked => s
    | .returned none pos => { s with readPos := pos }
    | .returned (some ev) pos =>
      { s with
        readPos := pos
        returned := s.returned ++ [ev]
        laps := s.laps ++ [Lib.laps s.queue.ring.capacity.size s.enqueued.length s.readPos.toNat] }

def run (s : QueueRun P) (ops : List (QueueOp P)) : QueueRun P := ops.foldl step s

/-! ## The invariant -/

structure Inv (c : Capacity) (s : QueueRun P) : Prop where
  capacity : s.queue.ring.capacity = c
  running : s.queue.stopped = false
  holds : s.queue.ring.Holds s.enqueued
  pos : s.readPos.toNat = s.returned.length
  returned_le : s.returned.length ≤ s.enqueued.length
  laps_length : s.laps.length = s.returned.length
  item : ∀ k l : Nat, s.laps[k]? = some l →
    k + c.size * l < s.enqueued.length ∧ s.returned[k]? = s.enqueued[k + c.size * l]?

theorem inv_init (c : Capacity) : Inv c (init c : QueueRun P) :=
  ⟨rfl, rfl, RingBuffer.holds_new c, rfl, le_refl _, rfl, fun k l h => by simp [init] at h⟩

/-- A call with an event past the read position returns the latest event of its slot. -/
theorem Inv.waitForTrigger {c : Capacity} {s : QueueRun P} (h : Inv c s)
    (hlt : s.readPos.toNat < s.queue.ring.writeSeq.toNat) :
    ∃ hs : s.readPos.toNat < s.enqueued.length,
      s.queue.waitForTrigger s.readPos
        = .returned (some (s.enqueued.get
            ⟨latest c.size s.enqueued.length s.readPos.toNat, latest_lt hs⟩)) (s.readPos + 1) := by
  have hhead := h.holds.toNat_writeSeq
  have hs : s.readPos.toNat < s.enqueued.length := by
    have := Nat.mod_le s.enqueued.length (2 ^ 64)
    omega
  have hread := h.holds.read hlt hs
  have hgt : s.queue.ring.head > s.readPos := UInt64.lt_iff_toNat_lt.mpr hlt
  refine ⟨hs, ?_⟩
  rw [ScriptQueue.waitForTrigger, if_neg (by simp [h.running]), if_pos hgt, hread]
  simp only [h.capacity]

theorem Inv.blocked {c : Capacity} {s : QueueRun P} (h : Inv c s)
    (hge : s.queue.ring.writeSeq.toNat ≤ s.readPos.toNat) :
    s.queue.waitForTrigger s.readPos = .blocked := by
  have hgt : ¬ s.queue.ring.head > s.readPos := by
    rw [gt_iff_lt, UInt64.lt_iff_toNat_lt]
    exact Nat.not_lt.mpr hge
  rw [ScriptQueue.waitForTrigger, if_neg (by simp [h.running]), if_neg hgt]

theorem Inv.enqueue {c : Capacity} {s : QueueRun P} (h : Inv c s) (ev : Event P) :
    Inv c (s.step (.enqueue ev)) := by
  refine ⟨h.capacity, h.running, h.holds.write ev, h.pos, ?_, h.laps_length, fun k l hl => ?_⟩
  · have := h.returned_le
    simp only [step, List.length_append, List.length_singleton]
    omega
  · obtain ⟨hlt, hitem⟩ := h.item k l hl
    simp only [step, List.length_append, List.length_singleton]
    exact ⟨by omega, by rw [List.getElem?_append_left hlt]; exact hitem⟩

theorem Inv.wait {c : Capacity} {s : QueueRun P} (h : Inv c s) : Inv c (s.step .wait) := by
  rcases Nat.lt_or_ge s.readPos.toNat s.queue.ring.writeSeq.toNat with hlt | hge
  · obtain ⟨hs, hcall⟩ := h.waitForTrigger hlt
    have hpos : (s.readPos + 1).toNat = s.readPos.toNat + 1 := by
      have := s.queue.ring.writeSeq.toNat_lt
      rw [UInt64.toNat_add, UInt64.toNat_one, Nat.mod_eq_of_lt (by omega)]
    simp only [step, hcall]
    refine ⟨h.capacity, h.running, h.holds, ?_, ?_, ?_, fun k l hl => ?_⟩
    · have hp := h.pos
      rw [List.length_append, List.length_singleton, ← hp]
      exact hpos
    · have := h.pos
      rw [List.length_append, List.length_singleton]
      simp only at hs ⊢
      omega
    · rw [List.length_append, List.length_append, h.laps_length]
      rfl
    · simp only at hl ⊢
      rw [h.capacity] at hl
      rcases Nat.lt_or_ge k s.laps.length with hk | hk
      · rw [List.getElem?_append_left hk] at hl
        rw [List.getElem?_append_left (by rw [← h.laps_length]; exact hk)]
        exact h.item k l hl
      · -- the event just returned
        rw [List.getElem?_append_right hk] at hl
        obtain ⟨hk0, rfl⟩ : k - s.laps.length = 0 ∧
            Lib.laps c.size s.enqueued.length s.readPos.toNat = l := by
          rcases Nat.eq_zero_or_pos (k - s.laps.length) with h0 | h1
          · rw [h0] at hl
            exact ⟨h0, by simpa using hl⟩
          · rw [List.getElem?_eq_none (by rw [List.length_singleton]; omega)] at hl
            cases hl
        have hkpos : k = s.readPos.toNat := by
          have := h.laps_length
          have := h.pos
          omega
        subst hkpos
        have hlatest := latest_lt (c := c.size) hs
        refine ⟨hlatest, ?_⟩
        have hnew : s.readPos.toNat - s.returned.length = 0 := by rw [h.pos, Nat.sub_self]
        rw [List.getElem?_append_right (by rw [h.pos]), hnew, List.getElem?_cons_zero]
        exact (List.getElem?_eq_getElem hlatest).symm
  · simp only [step, h.blocked hge]
    exact h

theorem inv_step {c : Capacity} {s : QueueRun P} (h : Inv c s) (op : QueueOp P) :
    Inv c (s.step op) := by
  cases op with
  | enqueue ev => exact h.enqueue ev
  | wait => exact h.wait

theorem inv_run {c : Capacity} (ops : List (QueueOp P)) {s : QueueRun P} (h : Inv c s) :
    Inv c (s.run ops) := by
  induction ops generalizing s with
  | nil => exact h
  | cons op ops ih => exact ih (inv_step h op)

/-! ## Order of delivery -/

/-- Laps in order: the positions read increase, so the events returned are a subsequence. -/
theorem Inv.sublist_of_laps {c : Capacity} {s : QueueRun P} (h : Inv c s)
    (hlaps : s.laps.Pairwise (· ≤ ·)) : s.returned.Sublist s.enqueued := by
  have hitem : ∀ k (hk : k < s.laps.length), k + c.size * s.laps[k] < s.enqueued.length ∧
      s.returned[k]? = s.enqueued[k + c.size * s.laps[k]]? :=
    fun k hk => h.item k _ (List.getElem?_eq_getElem hk)
  have hlen (k : Fin s.returned.length) : k.val < s.laps.length := by
    rw [h.laps_length]
    exact k.isLt
  let f : Fin s.returned.length → Fin s.enqueued.length :=
    fun k => ⟨k.val + c.size * s.laps.get ⟨k.val, hlen k⟩, (hitem k.val (hlen k)).1⟩
  have hmono : StrictMono f := by
    intro i j hij
    have hle := List.pairwise_iff_getElem.mp hlaps i.val j.val (hlen i) (hlen j) hij
    have := Nat.mul_le_mul_left c.size hle
    have hi := hlen i
    have hj := hlen j
    show i.val + c.size * s.laps[i.val] < j.val + c.size * s.laps[j.val]
    have : i.val < j.val := hij
    omega
  refine List.sublist_iff_exists_fin_orderEmbedding_get_eq.mpr
    ⟨OrderEmbedding.ofStrictMono f hmono, fun k => ?_⟩
  have hk := (hitem k.val (hlen k)).2
  rw [List.getElem?_eq_getElem k.isLt, List.getElem?_eq_getElem (hitem k.val (hlen k)).1,
    Option.some.injEq] at hk
  exact hk

/-- A worker that is never lapped gets the events in order, none left out. -/
theorem Inv.returned_eq_take {c : Capacity} {s : QueueRun P} (h : Inv c s)
    (hlaps : ∀ l ∈ s.laps, l = 0) : s.returned = s.enqueued.take s.returned.length := by
  apply List.ext_getElem?
  intro k
  rcases Nat.lt_or_ge k s.laps.length with hk | hk
  · have hzero : s.laps[k] = 0 := hlaps _ (List.getElem_mem hk)
    have hitem := (h.item k _ (List.getElem?_eq_getElem hk)).2
    rw [hzero, Nat.mul_zero, Nat.add_zero] at hitem
    rw [hitem, List.getElem?_take_of_lt (by rw [← h.laps_length]; exact hk)]
  · rw [h.laps_length] at hk
    rw [List.getElem?_eq_none hk, List.getElem?_take_eq_none hk]

/-- With distinct events a subsequence fixes the positions read, and they increase only when the
laps are in order. -/
theorem Inv.laps_of_sublist {c : Capacity} {s : QueueRun P} (h : Inv c s)
    (hnodup : s.enqueued.Nodup) (hsub : s.returned.Sublist s.enqueued) :
    s.laps.Pairwise (· ≤ ·) := by
  obtain ⟨f, hf⟩ := List.sublist_iff_exists_fin_orderEmbedding_get_eq.mp hsub
  have hpos : ∀ k (hk : k < s.laps.length) (hr : k < s.returned.length),
      (f ⟨k, hr⟩).val = k + c.size * s.laps[k] := by
    intro k hk hr
    obtain ⟨hlt, hitem⟩ := h.item k _ (List.getElem?_eq_getElem hk)
    rw [List.getElem?_eq_getElem hr, List.getElem?_eq_getElem hlt, Option.some.injEq] at hitem
    have hget := hf ⟨k, hr⟩
    rw [List.get_eq_getElem, hitem] at hget
    exact (hnodup.getElem_inj_iff.mp hget).symm
  rw [← List.isChain_iff_pairwise, List.isChain_iff_getElem]
  intro k hk
  have hlen := h.laps_length
  have hlt : f ⟨k, by omega⟩ < f ⟨k + 1, by omega⟩ :=
    f.strictMono (Fin.mk_lt_mk.mpr (Nat.lt_succ_self k))
  have hlt' := Fin.lt_def.mp hlt
  rw [hpos k (by omega) (by omega), hpos (k + 1) hk (by omega)] at hlt'
  by_contra hgt
  have hc := c.size_pos
  have hmul := Nat.mul_le_mul_left c.size (Nat.lt_of_not_le hgt)
  rw [Nat.succ_eq_add_one, Nat.mul_add, Nat.mul_one] at hmul
  omega

/-- **Script queues.** In every run of a queue, the events returned are a subsequence of the events
enqueued if, and for distinct events only if, each event is read after at least as many laps of the
writer as the one before it. -/
theorem returned_sublist_iff (c : Capacity) (ops : List (QueueOp P)) :
    (((init c).run ops).laps.Pairwise (· ≤ ·) →
      ((init c).run ops).returned.Sublist ((init c).run ops).enqueued) ∧
    (((init c).run ops).enqueued.Nodup →
      ((init c).run ops).returned.Sublist ((init c).run ops).enqueued →
      ((init c).run ops).laps.Pairwise (· ≤ ·)) := by
  have h : Inv c ((init c).run ops) := inv_run ops (inv_init c)
  exact ⟨h.sublist_of_laps, h.laps_of_sublist⟩

/-- Three events enqueued before the first read of a queue of capacity 2: the third is returned
twice, the first time before the second. -/
theorem returned_twice :
    ¬ ((init ⟨1, by decide⟩ : QueueRun 76).run
        [.enqueue { sequence := 0 }, .enqueue { sequence := 1 }, .enqueue { sequence := 2 },
          .wait, .wait, .wait]).returned.Sublist
      ((init ⟨1, by decide⟩ : QueueRun 76).run
        [.enqueue { sequence := 0 }, .enqueue { sequence := 1 }, .enqueue { sequence := 2 },
          .wait, .wait, .wait]).enqueued := by
  decide

end QueueRun

end Mawmaw.Core
