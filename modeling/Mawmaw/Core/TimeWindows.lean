import Mathlib.Order.Bounds.Defs
import Mawmaw.Core.WindowBounds

/-!
# Time windows

What the backward scan of a time window finds in a ring that has not wrapped.

* `timeWindow` : the specification of the last `d` nanoseconds; `toNat_cutoff` : its cutoff
  saturates at 0;
* `recentSuffixes` : the positions from which on every event is recent enough;
* `time_window_suffix` : the window starts at the least of them, and in the order of the timestamps
  it is exactly the recent events.
-/

namespace Mawmaw.Core

variable {P : Nat}

/-- `time, d`; the count is not looked at. -/
def timeWindow (d count : UInt64) : WindowSpec := { type := .timeBased, durationNs := d, count }

theorem toNat_cutoff (spec : WindowSpec) (ts : UInt64) :
    (cutoff spec ts).toNat = ts.toNat - spec.durationNs.toNat := by
  unfold cutoff
  split
  · rename_i hgt
    exact UInt64.toNat_sub_of_le _ _ (UInt64.le_of_lt hgt)
  · rename_i hle
    have := UInt64.le_iff_toNat_le.mp (UInt64.not_lt.mp hle)
    simp only [UInt64.toNat_ofNat]
    omega

/-- The positions `b ≤ head` such that every event from `b` on has a timestamp of at least
`max 0 (t - d)`. -/
def recentSuffixes (hist : List (Event P)) (d t : UInt64) : Set Nat :=
  {b | b ≤ hist.length ∧ ∀ (s : Nat) (hs : s < hist.length), b ≤ s →
    t.toNat - d.toNat ≤ (hist.get ⟨s, hs⟩).timestampNs.toNat}

section
variable {r : RingBuffer (Event P)} {hist : List (Event P)} (h : r.Holds hist)
  (hlap : hist.length ≤ r.capacity.size)
include h hlap

theorem toNat_head_of_not_wrapped : r.head.toNat = hist.length := by
  have hlt := r.capacity.size_lt
  have hhead := h.toNat_writeSeq
  rw [Nat.mod_eq_of_lt (by omega)] at hhead
  exact hhead

theorem slot_of_not_wrapped {s : Nat} (hs : s < hist.length) :
    r.slot (UInt64.ofNat s) = hist.get ⟨s, hs⟩ :=
  h.slots s hs (by omega)

/-- The scan starts the window at the least position of a recent suffix. -/
theorem scanBack_isLeast (d t count : UInt64) :
    IsLeast (recentSuffixes hist d t)
      (scanBack r (cutoff (timeWindow d count) t) hist.length) := by
  have hlen : hist.length ≤ r.writeSeq.toNat := le_of_eq (toNat_head_of_not_wrapped h hlap).symm
  have hcut : (cutoff (timeWindow d count) t).toNat = t.toNat - d.toNat := toNat_cutoff _ _
  constructor
  · refine ⟨scanBack_le r _ _, fun s hs hle => ?_⟩
    have hge := scanBack_ge r (cutoff (timeWindow d count) t) hist.length hlen s hle hs
    rw [slot_of_not_wrapped h hlap hs, UInt64.lt_iff_toNat_lt, hcut] at hge
    omega
  · rintro b ⟨-, hall⟩
    rcases scanBack_stop r (cutoff (timeWindow d count) t) hist.length hlen with
      h0 | ⟨s, hstop, hold⟩
    · rw [h0]
      exact Nat.zero_le b
    · -- the event the scan stopped at is in no recent suffix
      have hs : s < hist.length := by
        have := scanBack_le r (cutoff (timeWindow d count) t) hist.length
        omega
      rw [slot_of_not_wrapped h hlap hs, UInt64.lt_iff_toNat_lt, hcut] at hold
      by_contra hlt
      have := hall s hs (by omega)
      omega

theorem toNat_computeBegin_time (d t count : UInt64) :
    (computeBegin r r.head (timeWindow d count) t).toNat
      = scanBack r (cutoff (timeWindow d count) t) hist.length := by
  rw [toNat_computeBegin]
  show scanBack r _ r.head.toNat = _
  rw [toNat_head_of_not_wrapped h hlap]

end

/-- Where the timestamps do not decrease, a recent event starts a recent suffix. -/
theorem mem_recentSuffixes_iff {hist : List (Event P)} {d t : UInt64}
    (hsorted : hist.Pairwise fun e e' => e.timestampNs ≤ e'.timestampNs) {s : Nat}
    (hs : s < hist.length) :
    s ∈ recentSuffixes hist d t ↔ t.toNat - d.toNat ≤ (hist.get ⟨s, hs⟩).timestampNs.toNat := by
  constructor
  · rintro ⟨-, hall⟩
    exact hall s hs (le_refl s)
  · intro hrecent
    refine ⟨le_of_lt hs, fun j hj hle => ?_⟩
    rcases Nat.eq_or_lt_of_le hle with rfl | hlt
    · exact hrecent
    · have hmono := List.pairwise_iff_get.mp hsorted ⟨s, hs⟩ ⟨j, hj⟩ hlt
      exact hrecent.trans (UInt64.le_iff_toNat_le.mp hmono)

/-- **Time windows.** In a ring that has not wrapped the window of the last `d` nanoseconds starts at
the least position from which on every event is recent enough. If the timestamps do not decrease in
the order of the pushes, its positions are those of the recent events. -/
theorem time_window_suffix {r : RingBuffer (Event P)} {hist : List (Event P)} (h : r.Holds hist)
    (hlap : hist.length ≤ r.capacity.size) (d t count : UInt64) :
    IsLeast (recentSuffixes hist d t) (computeBegin r r.head (timeWindow d count) t).toNat ∧
    (hist.Pairwise (fun e e' => e.timestampNs ≤ e'.timestampNs) →
      {s | (computeBegin r r.head (timeWindow d count) t).toNat ≤ s ∧ s < r.head.toNat}
        = {s | ∃ hs : s < hist.length,
            t.toNat - d.toNat ≤ (hist.get ⟨s, hs⟩).timestampNs.toNat}) := by
  rw [toNat_computeBegin_time h hlap, toNat_head_of_not_wrapped h hlap]
  have hleast := scanBack_isLeast h hlap d t count
  refine ⟨hleast, fun hsorted => ?_⟩
  ext s
  constructor
  · rintro ⟨hle, hs⟩
    exact ⟨hs, hleast.1.2 s hs hle⟩
  · rintro ⟨hs, hrecent⟩
    exact ⟨hleast.2 ((mem_recentSuffixes_iff hsorted hs).mpr hrecent), hs⟩

/-- Three events, the first of them too old. -/
def threeEvents : List (Event 4) :=
  [{ timestampNs := 10 }, { timestampNs := 20 }, { timestampNs := 30 }]

theorem time_window_suffix_three :
    IsLeast (recentSuffixes threeEvents 15 30)
      (computeBegin ((RingBuffer.new ⟨2, by decide⟩).writeAll threeEvents)
        ((RingBuffer.new ⟨2, by decide⟩).writeAll threeEvents).head (timeWindow 15 0) 30).toNat ∧
    (threeEvents.Pairwise (fun e e' => e.timestampNs ≤ e'.timestampNs) →
      {s | (computeBegin ((RingBuffer.new ⟨2, by decide⟩).writeAll threeEvents)
          ((RingBuffer.new ⟨2, by decide⟩).writeAll threeEvents).head (timeWindow 15 0) 30).toNat
            ≤ s ∧ s < ((RingBuffer.new ⟨2, by decide⟩).writeAll threeEvents).head.toNat}
        = {s | ∃ hs : s < threeEvents.length,
            (30 : UInt64).toNat - (15 : UInt64).toNat
              ≤ (threeEvents.get ⟨s, hs⟩).timestampNs.toNat}) :=
  time_window_suffix (by simpa using (RingBuffer.holds_new ⟨2, by decide⟩).writeAll threeEvents)
    (by rw [RingBuffer.writeAll_capacity]; decide) 15 30 0

end Mawmaw.Core
