import Mawmaw.Core.WindowRegistry

/-!
# Windows and wrap-around

* `scanBack_le`, `scanBack_ge`, `scanBack_stop` : what the backward scan of a time window says about
  the events it passed and the one it stopped at;
* `InRing r v` : the view `v` names at most one lap of the ring `r`, so no slot twice;
* `Fits r spec ts` : the ring has not wrapped, or the count is at most the capacity, or the last lap
  holds an event the time window excludes;
* `windowBounds_inRing_iff` : the bounds the registry computes are in the ring exactly when they
  fit.
-/

namespace Mawmaw.Core
open Mawmaw.Lib

variable {P : Nat}

/-! ## The backward scan -/

theorem scanBack_le (r : RingBuffer (Event P)) (cut : UInt64) (b : Nat) :
    scanBack r cut b ≤ b := by
  induction b with
  | zero => exact le_refl _
  | succ b ih =>
      unfold scanBack
      split
      · exact le_refl _
      · split
        · exact le_refl _
        · omega

theorem scanBack_succ (r : RingBuffer (Event P)) (cut : UInt64) {b : Nat}
    (hb : b < r.writeSeq.toNat) :
    scanBack r cut (b + 1)
      = if (r.slot (UInt64.ofNat b)).timestampNs < cut then b + 1 else scanBack r cut b := by
  have hlt := r.writeSeq.toNat_lt
  have hnat : (UInt64.ofNat b).toNat = b := by
    rw [UInt64.toNat_ofNat', Nat.mod_eq_of_lt (by omega)]
  rw [scanBack, r.read_of_lt (by rw [hnat]; exact hb)]

/-- Every event the scan passed is recent enough. -/
theorem scanBack_ge (r : RingBuffer (Event P)) (cut : UInt64) (b : Nat)
    (hb : b ≤ r.writeSeq.toNat) :
    ∀ s, scanBack r cut b ≤ s → s < b → ¬ (r.slot (UInt64.ofNat s)).timestampNs < cut := by
  induction b with
  | zero => intro s _ hs; omega
  | succ b ih =>
      intro s hle hs
      rw [scanBack_succ r cut (by omega)] at hle
      split at hle
      · omega
      · rename_i hrecent
        rcases Nat.lt_succ_iff_lt_or_eq.mp hs with hlt | heq
        · exact ih (by omega) s hle hlt
        · rw [heq]
          exact hrecent

/-- The scan stops at the oldest position or next to an event that is too old. -/
theorem scanBack_stop (r : RingBuffer (Event P)) (cut : UInt64) (b : Nat)
    (hb : b ≤ r.writeSeq.toNat) :
    scanBack r cut b = 0 ∨ ∃ s, scanBack r cut b = s + 1 ∧
      (r.slot (UInt64.ofNat s)).timestampNs < cut := by
  induction b with
  | zero => exact Or.inl rfl
  | succ b ih =>
      rw [scanBack_succ r cut (by omega)]
      split
      · rename_i hold
        exact Or.inr ⟨b, rfl, hold⟩
      · exact ih (by omega)

/-- A scan that meets no old event in the last lap meets none at all: the older positions share
their slots with it. -/
theorem scanBack_eq_zero (r : RingBuffer (Event P)) (cut : UInt64) (b : Nat)
    (hb : b ≤ r.writeSeq.toNat)
    (hlap : ∀ s, s < b → b ≤ s + r.capacity.size →
      ¬ (r.slot (UInt64.ofNat s)).timestampNs < cut) : scanBack r cut b = 0 := by
  have hc := r.capacity.size_pos
  rcases scanBack_stop r cut b hb with h0 | ⟨s, hs, hold⟩
  · exact h0
  · exfalso
    have hsb : s < b := by have := scanBack_le r cut b; omega
    have hsame : r.slot (UInt64.ofNat s)
        = r.slot (UInt64.ofNat (latest r.capacity.size b s)) :=
      r.slot_congr (by rw [RingBuffer.ofNat_mod, RingBuffer.ofNat_mod, latest_mod])
    rw [hsame] at hold
    exact hlap _ (latest_lt hsb) (le_latest_add hc hsb) hold

/-! ## Windows inside their ring -/

/-- The view starts before its end, spans at most one lap, and names no slot twice. -/
structure InRing (r : RingBuffer (Event P)) (v : RingView) : Prop where
  begin_le : v.beginSeq ≤ v.endSeq
  size_le : (v.endSeq - v.beginSeq).toNat ≤ r.capacity.size
  slots_ne : ∀ s t : UInt64, v.beginSeq ≤ s → s < t → t < v.endSeq → r.slotOf s ≠ r.slotOf t

theorem InRing.of_bounds {r : RingBuffer (Event P)} {v : RingView} (hle : v.beginSeq ≤ v.endSeq)
    (hsize : (v.endSeq - v.beginSeq).toNat ≤ r.capacity.size) : InRing r v := by
  refine ⟨hle, hsize, fun s t hs hst ht heq => ?_⟩
  rw [UInt64.toNat_sub_of_le _ _ hle] at hsize
  have hmod : s.toNat % r.capacity.size = t.toNat % r.capacity.size := by
    have := congrArg Fin.val heq
    rwa [r.slotOf_val, r.slotOf_val] at this
  have h1 := UInt64.le_iff_toNat_le.mp hs
  have h2 := UInt64.lt_iff_toNat_lt.mp hst
  have h3 := UInt64.lt_iff_toNat_lt.mp ht
  have := eq_of_mod_eq hmod (by omega) (by omega)
  omega

/-- When a window stays inside its ring: the ring has not wrapped, or the count is at most the
capacity, or one of the last `capacity` events is too old for the time window. -/
def Fits (r : RingBuffer (Event P)) (spec : WindowSpec) (ts : UInt64) : Prop :=
  r.head.toNat ≤ r.capacity.size ∨
    match spec.type with
    | .countBased => spec.count.toNat ≤ r.capacity.size
    | .timeBased => ∃ s < r.head.toNat, r.head.toNat ≤ s + r.capacity.size ∧
        (r.slot (UInt64.ofNat s)).timestampNs < cutoff spec ts

theorem toNat_computeBegin (r : RingBuffer (Event P)) (spec : WindowSpec) (ts : UInt64) :
    (computeBegin r r.head spec ts).toNat =
      match spec.type with
      | .countBased => r.head.toNat - spec.count.toNat
      | .timeBased => scanBack r (cutoff spec ts) r.head.toNat := by
  unfold computeBegin
  by_cases h0 : r.head = 0
  · rw [if_pos h0, h0]
    cases spec.type
    · rfl
    · simp
  · rw [if_neg h0]
    cases spec.type
    · have hle := scanBack_le r (cutoff spec ts) r.head.toNat
      have hlt := r.head.toNat_lt
      simp only [UInt64.toNat_ofNat']
      exact Nat.mod_eq_of_lt (by omega)
    · simp only
      split
      · rename_i hge
        exact UInt64.toNat_sub_of_le _ _ hge
      · rename_i hlt
        have := UInt64.le_iff_toNat_le.not.mp hlt
        simp
        omega

theorem windowBounds_begin_le (r : RingBuffer (Event P)) (spec : WindowSpec) (ts : UInt64) :
    (windowBounds r spec ts).beginSeq ≤ (windowBounds r spec ts).endSeq := by
  rw [UInt64.le_iff_toNat_le, windowBounds, toNat_computeBegin]
  cases spec.type
  · exact scanBack_le _ _ _
  · exact Nat.sub_le _ _

theorem windowBounds_size (r : RingBuffer (Event P)) (spec : WindowSpec) (ts : UInt64) :
    ((windowBounds r spec ts).endSeq - (windowBounds r spec ts).beginSeq).toNat =
      match spec.type with
      | .countBased => min r.head.toNat spec.count.toNat
      | .timeBased => r.head.toNat - scanBack r (cutoff spec ts) r.head.toNat := by
  rw [UInt64.toNat_sub_of_le _ _ (windowBounds_begin_le r spec ts), windowBounds,
    toNat_computeBegin]
  cases spec.type
  · rfl
  · simp only
    omega

theorem windowBounds_size_le_iff (r : RingBuffer (Event P)) (spec : WindowSpec) (ts : UInt64) :
    ((windowBounds r spec ts).endSeq - (windowBounds r spec ts).beginSeq).toNat
      ≤ r.capacity.size ↔ Fits r spec ts := by
  rw [windowBounds_size, Fits]
  cases spec.type with
  | countBased => exact min_le_iff
  | timeBased =>
      simp only
      refine ⟨?_, ?_⟩
      · intro hsize
        by_contra hnot
        obtain ⟨hwrap, hlap⟩ := not_or.mp hnot
        have h0 := scanBack_eq_zero r (cutoff spec ts) r.head.toNat (le_refl _)
          fun s hs hl hold => hlap ⟨s, hs, hl, hold⟩
        omega
      · rintro (hle | ⟨s, hs, hl, hold⟩)
        · omega
        · by_contra hbig
          exact scanBack_ge r (cutoff spec ts) r.head.toNat (le_refl _) s (by omega) hs hold

/-- The bounds computed for a window name at most one lap of its ring, each slot once, exactly when
the window fits. -/
theorem windowBounds_inRing_iff (r : RingBuffer (Event P)) (spec : WindowSpec) (ts : UInt64) :
    InRing r (windowBounds r spec ts) ↔ Fits r spec ts := by
  rw [← windowBounds_size_le_iff]
  exact ⟨fun h => h.size_le, fun h => InRing.of_bounds (windowBounds_begin_le r spec ts) h⟩

/-- **Windows and their ring.** For a subscribed stream with a ring, both input builders take their
events from one view of it, and that view stays inside the ring exactly when the window fits. -/
theorem input_window_inRing_iff (reg : WindowRegistry P) (trigger : Event P)
    (subs : UMap Str WindowSpec) (idx : Nat) (sid : Str) (spec : WindowSpec) (sr : StreamRing P)
    (hsub : subs.lookup sid = some spec) (hring : reg.rings.lookup sid = some sr) :
    ∃ v, (reg.makeZeroCopyInput trigger subs).windows.lookup sid = some v ∧
      (reg.makeSnapshotInput trigger subs idx).windows.lookup sid = some (v.events sr.ring) ∧
      (InRing sr.ring v ↔ Fits sr.ring spec trigger.timestampNs) := by
  refine ⟨windowBounds sr.ring spec trigger.timestampNs, ?_, ?_, windowBounds_inRing_iff _ _ _⟩
  · rw [reg.lookup_makeZeroCopyInput, hsub, hring]
    rfl
  · rw [reg.lookup_makeSnapshotInput, hsub, hring]
    rfl

/-- Six events of stream `s`, ten nanoseconds apart. -/
def sixEvents : List (Event 256) :=
  (List.range 6).map fun i =>
    (({ timestampNs := UInt64.ofNat (10 * (i + 1)), sequence := UInt64.ofNat i } : Event 256).setStream
      (lit "s"))

/-- A ring of four slots that the six events have wrapped. -/
def wrappedRing : RingBuffer (Event 256) := (RingBuffer.new .four).writeAll sixEvents

def wrappedRegistry : WindowRegistry 256 :=
  (({} : WindowRegistry 256).ensureStream (lit "s") .four).pushAll sixEvents

theorem wrappedRegistry_ring :
    wrappedRegistry.rings.lookup (lit "s") = some ⟨lit "s", wrappedRing⟩ := by
  have hstream : ∀ ev ∈ sixEvents, ev.stream = lit "s" := by decide
  have hring : (({} : WindowRegistry 256).ensureStream (lit "s") .four).rings.lookup
      (lit "s") = some ⟨lit "s", RingBuffer.new .four⟩ := AList.lookup_insert ∅
  exact WindowRegistry.lookup_pushAll sixEvents hstream hring

/-- The events of the last 25 ns are in the ring, the last five are not. -/
theorem input_window_inRing_iff_wrapped :
    (∃ v, (wrappedRegistry.makeZeroCopyInput { timestampNs := 60 }
          (AList.singleton (lit "s") { type := .timeBased, durationNs := 25 })).windows.lookup
            (lit "s") = some v ∧
        (wrappedRegistry.makeSnapshotInput { timestampNs := 60 }
          (AList.singleton (lit "s") { type := .timeBased, durationNs := 25 }) 0).windows.lookup
            (lit "s") = some (v.events wrappedRing) ∧ InRing wrappedRing v) ∧
      ∃ v, (wrappedRegistry.makeZeroCopyInput { timestampNs := 60 }
          (AList.singleton (lit "s") { count := 5 })).windows.lookup (lit "s") = some v ∧
        (wrappedRegistry.makeSnapshotInput { timestampNs := 60 }
          (AList.singleton (lit "s") { count := 5 }) 0).windows.lookup (lit "s")
            = some (v.events wrappedRing) ∧ ¬ InRing wrappedRing v := by
  refine ⟨?_, ?_⟩
  · obtain ⟨v, hview, hcopy, hiff⟩ := input_window_inRing_iff wrappedRegistry
      { timestampNs := 60 } (AList.singleton (lit "s") { type := .timeBased, durationNs := 25 }) 0
      (lit "s") { type := .timeBased, durationNs := 25 } ⟨lit "s", wrappedRing⟩
      (AList.lookup_insert ∅) wrappedRegistry_ring
    exact ⟨v, hview, hcopy,
      hiff.mpr (Or.inr ⟨2, by decide +kernel, by decide +kernel, by decide +kernel⟩)⟩
  · obtain ⟨v, hview, hcopy, hiff⟩ := input_window_inRing_iff wrappedRegistry
      { timestampNs := 60 } (AList.singleton (lit "s") { count := 5 }) 0 (lit "s") { count := 5 }
      ⟨lit "s", wrappedRing⟩ (AList.lookup_insert ∅) wrappedRegistry_ring
    refine ⟨v, hview, hcopy, fun hin => ?_⟩
    rcases hiff.mp hin with hlap | hcount
    · exact absurd hlap (by decide +kernel)
    · exact absurd hcount (by decide +kernel)

/-- A `window = s, count, 100000` on a ring of the default capacity, after 100000 pushes. -/
theorem windowBounds_count_100000 :
    ¬ InRing (RingBuffer.writeAll (RingBuffer.new defaultStreamCapacity)
        (List.replicate 100000 (default : Event 256)))
      (windowBounds (RingBuffer.writeAll (RingBuffer.new defaultStreamCapacity)
        (List.replicate 100000 (default : Event 256))) { count := 100000 } 0) := by
  intro h
  have hholds := (RingBuffer.holds_new defaultStreamCapacity).writeAll
    (List.replicate 100000 (default : Event 256))
  have hhead := hholds.toNat_writeSeq
  rw [List.nil_append, List.length_replicate] at hhead
  have hfits := (windowBounds_size_le_iff _ _ _).mp h.size_le
  rw [Fits, RingBuffer.head, hhead, RingBuffer.writeAll_capacity] at hfits
  exact absurd hfits (by decide)

end Mawmaw.Core
