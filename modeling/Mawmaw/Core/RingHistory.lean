import Mawmaw.Core.WindowViews

/-!
# A ring after any history

* `Contents c xs` : what the writes of `xs` to a ring return, and what is read of it afterwards;
  `ring_contents`;
* `written hist q` : the last item written with the number `q` (`written_isGreatest`); `Shows` : an
  index of a view leads into its window;
* `ring_view_shows_iff` : the indices for which a view that has not been lapped does so.
-/

namespace Mawmaw.Core
open Mawmaw.Lib

variable {T : Type} [Inhabited T]

/-! ## Contents -/

/-- A new ring with the items `xs` written to it. -/
def ringOf (c : Capacity) (xs : List T) : RingBuffer T := (RingBuffer.new c).writeAll xs

theorem holds_ringOf (c : Capacity) (xs : List T) : (ringOf c xs).Holds xs := by
  have h := (RingBuffer.holds_new (T := T) c).writeAll xs
  rwa [List.nil_append] at h

theorem capacity_ringOf (c : Capacity) (xs : List T) : (ringOf c xs).capacity = c :=
  RingBuffer.writeAll_capacity _ xs

/-- The `k`-th write returns `k`, in 64 bits. -/
theorem write_ringOf_take (c : Capacity) {xs : List T} {k : Nat} (hk : k ≤ xs.length) (x : T) :
    ((ringOf c (xs.take k)).write x).1 = UInt64.ofNat k := by
  rw [RingBuffer.write_fst, (holds_ringOf c (xs.take k)).seq, List.length_take,
    Nat.min_eq_left hk]

structure Contents (c : Capacity) (xs : List T) : Prop where
  returned : ∀ (k : Nat) (h : k < xs.length),
    ((ringOf c (xs.take k)).write xs[k]).1.toNat = k
  unwritten : ∀ seq : UInt64, (ringOf c xs).read seq = none ↔ xs.length ≤ seq.toNat
  /-- The item of the last position in the slot, which is the one asked for until it is lapped. -/
  latest : ∀ seq : UInt64, seq.toNat < xs.length →
    ∃ j, IsGreatest {j | j < xs.length ∧ j ≡ seq.toNat [MOD c.size]} j
      ∧ (ringOf c xs).read seq = xs[j]? ∧ (j = seq.toNat ↔ xs.length - seq.toNat ≤ c.size)
  /-- An item stays while fewer than `c` writes have followed it. -/
  kept : ∀ j m : Nat, j < m → m ≤ xs.length → m - (j + 1) < c.size →
    (ringOf c (xs.take m)).read (UInt64.ofNat j) = xs[j]?
  /-- The `c`-th write after it replaces it. -/
  replaced : ∀ j : Nat, j + c.size < xs.length →
    (ringOf c (xs.take (j + c.size + 1))).read (UInt64.ofNat j) = xs[j + c.size]?

section Reads
variable (c : Capacity) {xs : List T} (hlen : xs.length < 2 ^ 64)
include hlen

theorem toNat_writeSeq_ringOf : (ringOf c xs).writeSeq.toNat = xs.length := by
  rw [(holds_ringOf c xs).toNat_writeSeq, Nat.mod_eq_of_lt hlen]

theorem read_ringOf {seq : UInt64} (hseq : seq.toNat < xs.length) :
    (ringOf c xs).read seq = xs[latest c.size xs.length seq.toNat]? := by
  have hlt : seq.toNat < (ringOf c xs).writeSeq.toNat := by
    rwa [toNat_writeSeq_ringOf c hlen]
  rw [(holds_ringOf c xs).read hlt hseq, capacity_ringOf, List.getElem?_eq_getElem (latest_lt hseq)]
  rfl

/-- The item of a position `p` that has not been lapped is read at every position of its slot. -/
theorem read_ringOf_slot {j p : Nat} (hj : j < xs.length) (hp : p < xs.length)
    (hlap : xs.length ≤ p + c.size) (hslot : p % c.size = j % c.size) :
    (ringOf c xs).read (UInt64.ofNat j) = xs[p]? := by
  have hnat : (UInt64.ofNat j).toNat = j := by
    rw [UInt64.toNat_ofNat', Nat.mod_eq_of_lt (by omega)]
  rw [read_ringOf c hlen (by rwa [hnat]), hnat, latest_eq c.size_pos hj hp hlap hslot]

end Reads

/-- The contents of a ring after every history that the counter can number. -/
theorem ring_contents (c : Capacity) (xs : List T) (hlen : xs.length < 2 ^ 64) :
    Contents c xs := by
  have htake (m : Nat) (hm : m ≤ xs.length) : (xs.take m).length = m := by
    rw [List.length_take, Nat.min_eq_left hm]
  refine ⟨?_, ?_, ?_, ?_, ?_⟩
  · intro k hk
    rw [write_ringOf_take c (Nat.le_of_lt hk), UInt64.toNat_ofNat', Nat.mod_eq_of_lt (by omega)]
  · intro seq
    rw [← toNat_writeSeq_ringOf c hlen]
    constructor
    · intro hnone
      by_contra hlt
      rw [RingBuffer.read_of_lt _ (Nat.lt_of_not_le hlt)] at hnone
      cases hnone
    · exact RingBuffer.read_of_le _
  · intro seq hseq
    exact ⟨_, isGreatest_latest c.size_pos hseq, read_ringOf c hlen hseq,
      latest_eq_self_iff c.size_pos hseq⟩
  · intro j m hjm hm hlap
    have hlen' := htake m hm
    rw [← List.getElem?_take_of_lt hjm]
    apply read_ringOf_slot c
    · omega
    · omega
    · omega
    · omega
    · rfl
  · intro j hj
    have hpos := c.size_pos
    have hlen' := htake (j + c.size + 1) hj
    rw [← List.getElem?_take_of_lt (Nat.lt_succ_self (j + c.size))]
    apply read_ringOf_slot c
    · omega
    · omega
    · omega
    · omega
    · exact Nat.add_mod_right j c.size

theorem ring_contents_seven : Contents (Capacity.ofLog 2) [10, 11, 12, 13, 14, 15, 16] :=
  ring_contents (Capacity.ofLog 2) [10, 11, 12, 13, 14, 15, 16] (by decide)

/-! ## Views -/

/-- The last item written with the sequence number `q`. -/
def written {T : Type} (hist : List T) (q : UInt64) : Option T :=
  hist[latest (2 ^ 64) hist.length q.toNat]?

/-- The item of the last write that returned `q`. -/
theorem written_isGreatest (c : Capacity) {hist : List T} {q : UInt64}
    (h : q.toNat < hist.length) :
    ∃ j, IsGreatest {k | ∃ hk : k < hist.length,
        ((ringOf c (hist.take k)).write hist[k]).1 = q} j
      ∧ written hist q = hist[j]? := by
  have hsame : {k | ∃ hk : k < hist.length, ((ringOf c (hist.take k)).write hist[k]).1 = q}
      = {k | k < hist.length ∧ k ≡ q.toNat [MOD 2 ^ 64]} := by
    ext k
    have hnumber : UInt64.ofNat k = q ↔ k ≡ q.toNat [MOD 2 ^ 64] := by
      rw [← UInt64.toNat_inj, UInt64.toNat_ofNat', Nat.ModEq, Nat.mod_eq_of_lt q.toNat_lt]
    rw [Set.mem_ofPred_eq, Set.mem_ofPred_eq, ← hnumber, ← exists_prop]
    exact exists_congr fun hk => by rw [write_ringOf_take c (Nat.le_of_lt hk)]
  refine ⟨latest (2 ^ 64) hist.length q.toNat, ?_, rfl⟩
  rw [hsame]
  exact isGreatest_latest (by decide) h

/-- `view[i]` is the item written with the number `end - 1 - i` if `i` is below the size, and null
if it is not. -/
def Shows {T : Type} (v : RingView) (ring : RingBuffer T) (hist : List T) (i : UInt64) : Prop :=
  v.get ring i = if i < v.size then written hist (v.endSeq - 1 - i) else none

/-- Counting `i` back from the end does not come round to what was written behind the end; where the
counter has run over and stands before the end, `i` is past the window or the counter has come up to
it again. -/
def InReach (v : RingView) (head i : UInt64) : Prop :=
  (v.endSeq ≤ head → i.toNat + (head.toNat - v.endSeq.toNat) < 2 ^ 64)
    ∧ (head < v.endSeq → v.size ≤ i ∨ v.endSeq.toNat ≤ head.toNat + i.toNat)

theorem isSome_written {T : Type} {hist : List T} {q : UInt64} (h : q.toNat < hist.length) :
    (written hist q).isSome = true := by
  unfold written
  rw [List.getElem?_eq_getElem (latest_lt h)]
  rfl

/-- An item less than a lap old is read back by its number. -/
theorem read_eq_written {T : Type} {ring : RingBuffer T} {hist : List T} (h : ring.Holds hist)
    {q : UInt64} (hlt : q.toNat < ring.writeSeq.toNat)
    (hlap : ring.writeSeq.toNat - q.toNat ≤ ring.capacity.size) :
    ring.read q = written hist q := by
  have hseq : ring.writeSeq.toNat = hist.length % 2 ^ 64 := h.toNat_writeSeq
  have hs : q.toNat < hist.length := by
    have := Nat.mod_le hist.length (2 ^ 64)
    omega
  have hj := latest_lt (c := 2 ^ 64) hs
  have hnear := le_latest_add (c := 2 ^ 64) (by decide) hs
  have hmod : latest (2 ^ 64) hist.length q.toNat % 2 ^ 64 = q.toNat := by
    rw [latest_mod, Nat.mod_eq_of_lt q.toNat_lt]
  have hsame : latest ring.capacity.size hist.length q.toNat
      = latest (2 ^ 64) hist.length q.toNat := by
    apply latest_eq ring.capacity.size_pos hs hj
    · omega
    · rw [← Nat.mod_mod_of_dvd _ ring.capacity.size_dvd, hmod]
  unfold written
  rw [h.read hlt hs, List.get_eq_getElem, List.getElem?_eq_getElem hj]
  simp only [hsame]

/-- The index expression wraps below zero. -/
theorem toNat_index (e i : UInt64) :
    (e - 1 - i).toNat
      = if i.toNat < e.toNat then e.toNat - 1 - i.toNat else 2 ^ 64 + e.toNat - 1 - i.toNat := by
  have he := e.toNat_lt
  have hi := i.toNat_lt
  rw [UInt64.toNat_sub, UInt64.toNat_sub]
  have hone : (1 : UInt64).toNat = 1 := rfl
  split <;> omega

theorem get_of_le {T : Type} {v : RingView} {i : UInt64} (ring : RingBuffer T)
    (h : v.beginSeq.toNat ≤ (v.endSeq - 1 - i).toNat) :
    v.get ring i = ring.read (v.endSeq - 1 - i) := by
  unfold RingView.get
  refine if_neg ?_
  rw [UInt64.lt_iff_toNat_lt]
  exact Nat.not_lt.mpr h

theorem get_of_lt {T : Type} {v : RingView} {i : UInt64} (ring : RingBuffer T)
    (h : (v.endSeq - 1 - i).toNat < v.beginSeq.toNat) : v.get ring i = none := by
  unfold RingView.get
  exact if_pos (UInt64.lt_iff_toNat_lt.mpr h)

theorem lt_size_iff {v : RingView} {i : UInt64} (hle : v.beginSeq ≤ v.endSeq) :
    i < v.size ↔ i.toNat < v.endSeq.toNat - v.beginSeq.toNat := by
  rw [UInt64.lt_iff_toNat_lt, RingView.toNat_size hle]

section Index
variable {T : Type} {ring : RingBuffer T} {hist : List T} {v : RingView} {i : UInt64}
  (hle : v.beginSeq ≤ v.endSeq)
include hle

/-- Below the size, an item is shown unless the counter has run over and not come up to it. -/
theorem shows_inside (h : ring.Holds hist)
    (hroom : (ring.head - v.beginSeq).toNat ≤ ring.capacity.size)
    (hend : v.endSeq.toNat ≤ hist.length) (hi : i < v.size) :
    Shows v ring hist i ↔ v.endSeq.toNat - 1 - i.toNat < ring.head.toNat := by
  have hle' := UInt64.le_iff_toNat_le.mp hle
  have hi' := (lt_size_iff hle).mp hi
  have hseq := toNat_index v.endSeq i
  rw [if_pos (by omega)] at hseq
  unfold Shows
  rw [if_pos hi, get_of_le ring (by omega), ← hseq]
  rcases Nat.lt_or_ge (v.endSeq - 1 - i).toNat ring.head.toNat with hlt | hge
  · have hbegin : v.beginSeq ≤ ring.head := UInt64.le_iff_toNat_le.mpr (by omega)
    rw [UInt64.toNat_sub_of_le _ _ hbegin] at hroom
    exact iff_of_true (read_eq_written h hlt (by unfold RingBuffer.head at hroom; omega)) hlt
  · have hsome : (written hist (v.endSeq - 1 - i)).isSome = true := isSome_written (by omega)
    rw [RingBuffer.read_of_le ring hge]
    refine iff_of_false (fun hnone => ?_) (Nat.not_lt.mpr hge)
    rw [← hnone] at hsome
    cases hsome

/-- From the size on, an index that wraps below zero leads to what was written behind the end. -/
theorem shows_outside (hi : ¬i < v.size) :
    Shows v ring hist i
      ↔ i.toNat < v.endSeq.toNat ∨ ring.head.toNat ≤ 2 ^ 64 + v.endSeq.toNat - 1 - i.toNat := by
  have hle' := UInt64.le_iff_toNat_le.mp hle
  have hi' := i.toNat_lt
  have hsize := mt (lt_size_iff hle).mpr hi
  have hseq := toNat_index v.endSeq i
  unfold Shows
  rw [if_neg hi]
  rcases Nat.lt_or_ge i.toNat v.endSeq.toNat with hlt | hge
  · rw [if_pos hlt] at hseq
    exact iff_of_true (get_of_lt ring (by omega)) (.inl hlt)
  · rw [if_neg (Nat.not_lt.mpr hge)] at hseq
    rw [get_of_le ring (by omega), ← hseq]
    rcases Nat.lt_or_ge (v.endSeq - 1 - i).toNat ring.head.toNat with hread | hnone
    · rw [RingBuffer.read_of_lt ring hread]
      simp [Nat.not_le.mpr hread, Nat.not_lt.mpr hge]
    · exact iff_of_true (RingBuffer.read_of_le ring hnone) (.inr hnone)

end Index

/-- A view taken after the items `before`, while no item of it has been lapped. -/
theorem ring_view_shows_iff (c : Capacity) (before after : List T) (v : RingView)
    (hle : v.beginSeq ≤ v.endSeq) (htaken : v.endSeq ≤ (ringOf c before).head)
    (hroom : ((ringOf c (before ++ after)).head - v.beginSeq).toNat ≤ c.size) (i : UInt64) :
    Shows v (ringOf c (before ++ after)) (before ++ after) i
      ↔ InReach v (ringOf c (before ++ after)).head i := by
  have hle' := UInt64.le_iff_toNat_le.mp hle
  have hhead := (ringOf c (before ++ after)).head.toNat_lt
  unfold InReach
  rw [UInt64.le_iff_toNat_le, UInt64.lt_iff_toNat_lt, UInt64.le_iff_toNat_le,
    RingView.toNat_size hle]
  by_cases hi : i < v.size
  · have hend : v.endSeq.toNat ≤ (before ++ after).length := by
      have htaken' := UInt64.le_iff_toNat_le.mp htaken
      unfold RingBuffer.head at htaken'
      rw [(holds_ringOf c before).toNat_writeSeq] at htaken'
      have := Nat.mod_le before.length (2 ^ 64)
      rw [List.length_append]
      omega
    have hroom' : ((ringOf c (before ++ after)).head - v.beginSeq).toNat
        ≤ (ringOf c (before ++ after)).capacity.size := by rwa [capacity_ringOf]
    have hsize := (lt_size_iff hle).mp hi
    rw [shows_inside hle (holds_ringOf c (before ++ after)) hroom' hend hi]
    omega
  · have hsize := mt (lt_size_iff hle).mpr hi
    have hi' := i.toNat_lt
    rw [shows_outside hle hi]
    omega

/-- The last three of six events on a ring of four, after one more was written: the oldest is at
index 2, and the largest index leads to the event behind the window. -/
theorem ring_view_shows_iff_wrapped :
    Shows ⟨3, 6⟩ (ringOf (Capacity.ofLog 2) ([10, 20, 30, 40, 50, 60] ++ [70]))
        ([10, 20, 30, 40, 50, 60] ++ [70]) 2 ∧
      ¬ Shows ⟨3, 6⟩ (ringOf (Capacity.ofLog 2) ([10, 20, 30, 40, 50, 60] ++ [70]))
        ([10, 20, 30, 40, 50, 60] ++ [70]) 0xFFFFFFFFFFFFFFFF :=
  ⟨(ring_view_shows_iff (Capacity.ofLog 2) [10, 20, 30, 40, 50, 60] [70] ⟨3, 6⟩ (by decide)
      (by decide) (by decide) 2).mpr (by unfold InReach; decide),
    mt (ring_view_shows_iff (Capacity.ofLog 2) [10, 20, 30, 40, 50, 60] [70] ⟨3, 6⟩ (by decide)
      (by decide) (by decide) 0xFFFFFFFFFFFFFFFF).mp (by unfold InReach; decide)⟩

/-- The index that wraps round to the end leads to the event behind the window. -/
theorem ring_view_shows_next :
    (⟨0, 1⟩ : RingView).size = 1
      ∧ (⟨0, 1⟩ : RingView).get (ringOf (Capacity.ofLog 1) ([10] ++ [11])) 0xFFFFFFFFFFFFFFFF
        = some 11
      ∧ ¬∀ (c : Capacity) (before after : List Nat) (v : RingView), v.beginSeq ≤ v.endSeq →
        v.endSeq ≤ (ringOf c before).head →
        ((ringOf c (before ++ after)).head - v.beginSeq).toNat ≤ c.size →
        ∀ i, Shows v (ringOf c (before ++ after)) (before ++ after) i := by
  have hsize : (⟨0, 1⟩ : RingView).size = 1 := by decide
  have hget : (⟨0, 1⟩ : RingView).get (ringOf (Capacity.ofLog 1) ([10] ++ [11]))
      0xFFFFFFFFFFFFFFFF = some 11 := by decide +kernel
  refine ⟨hsize, hget, fun h => ?_⟩
  have hnull := h (Capacity.ofLog 1) [10] [11] ⟨0, 1⟩ (by decide) (by decide) (by decide)
    0xFFFFFFFFFFFFFFFF
  unfold Shows at hnull
  rw [hsize, hget, if_neg (by decide)] at hnull
  cases hnull

end Mawmaw.Core
