import Mathlib.Algebra.BigOperators.Group.Finset.Piecewise
import Mathlib.Algebra.Order.Ring.Int
import Mawmaw.Lib.UMap

/-!
# Maps of counters

A map of counters reads as 0 at the keys it does not have.

* `UMap.getD_insert`, `UMap.getD_collect` : the counters of a map built up or rebuilt;
* `UMap.total` : the sum of the counters; `UMap.total_eq_sum` : over any set of keys that has them;
* `UMap.total_add`, `UMap.total_congr`, `UMap.total_zero` : totals of maps that agree counter by counter;
* `UMap.sum_filter_toPairs` : the counters of one key among the entries.
-/

namespace Mawmaw.Lib
namespace UMap

variable {κ M : Type}

def total [AddCommMonoid M] (m : UMap κ M) : M := (m.toPairs.map (·.2)).sum

theorem total_singleton [AddCommMonoid M] (k : κ) (v : M) : total (AList.singleton k v) = v := by
  rw [total, toPairs, AList.singleton_entries, List.map_singleton, List.map_singleton,
    List.sum_singleton]

theorem mem_of_mem_toPairs {m : UMap κ M} {e : κ × M} (h : e ∈ m.toPairs) : e.1 ∈ m := by
  obtain ⟨e, he, rfl⟩ := List.mem_map.mp h
  exact AList.mem_keys.mpr (List.mem_map_of_mem he)

theorem toPairs_eq_nil {m : UMap κ M} : m.toPairs = [] ↔ ∀ k, k ∉ m := by
  constructor
  · intro h k hk
    obtain ⟨e, he, -⟩ := List.mem_map.mp (AList.mem_keys.mp hk)
    have hmem : (e.1, e.2) ∈ m.toPairs := List.mem_map_of_mem he
    rw [h] at hmem
    cases hmem
  · intro h
    exact List.eq_nil_iff_forall_not_mem.mpr fun e he => h e.1 (mem_of_mem_toPairs he)

variable [DecidableEq κ]

theorem getD_insert (m : UMap κ M) (k k' : κ) (v d : M) :
    UMap.getD (m.insert k v) k' d = if k' = k then v else UMap.getD m k' d := by
  unfold getD
  split
  · rename_i hk
    rw [hk, AList.lookup_insert, Option.getD_some]
  · rename_i hk
    rw [AList.lookup_insert_ne hk]

theorem getD_collect {ν : Type} (m : UMap κ ν) (f : κ → ν → Option M) (k : κ) (d : M) :
    UMap.getD (m.collect f) k d = ((m.lookup k).bind (f k)).getD d := by
  rw [getD, lookup_collect]

theorem getD_empty (k : κ) (d : M) : UMap.getD (∅ : UMap κ M) k d = d := by
  rw [getD, AList.lookup_empty, Option.getD_none]

/-- A key the map does not have is not among its entries. -/
theorem filter_toPairs_none {m : UMap κ M} {k : κ} (h : m.lookup k = none) :
    m.toPairs.filter (fun e => e.1 = k) = [] := by
  rw [List.filter_eq_nil_iff]
  intro e he hk
  have hmem := mem_of_mem_toPairs he
  rw [of_decide_eq_true hk] at hmem
  exact AList.lookup_eq_none.mp h hmem

variable [AddCommMonoid M]

theorem sum_filter_toPairs (m : UMap κ M) (k : κ) :
    ((m.toPairs.filter fun e => e.1 = k).map (·.2)).sum = UMap.getD m k 0 := by
  cases h : m.lookup k with
  | none => rw [filter_toPairs_none h, getD, h, List.map_nil, List.sum_nil, Option.getD_none]
  | some v => rw [filter_toPairs h, getD, h, List.map_singleton, List.sum_singleton,
      Option.getD_some]

theorem total_eq_sum (m : UMap κ M) {S : Finset κ} (hS : ∀ k ∈ m.keys, k ∈ S) :
    m.total = ∑ k ∈ S, UMap.getD m k 0 := by
  have hentries : ∀ es : List (Sigma fun _ : κ => M), es.NodupKeys → (∀ k ∈ es.keys, k ∈ S) →
      (es.map (·.2)).sum = ∑ k ∈ S, (es.dlookup k).getD 0 := by
    intro es
    induction es with
    | nil =>
        intro _ _
        simp
    | cons e es ih =>
        intro hd hkeys
        have hnot : e.1 ∉ es.keys := (List.nodupKeys_cons.mp hd).1
        have hpoint : ∀ k ∈ S, ((e :: es).dlookup k).getD 0
            = (if k = e.1 then e.2 else 0) + (es.dlookup k).getD 0 := by
          intro k _
          by_cases hk : k = e.1
          · subst hk
            rw [List.dlookup_cons_eq, if_pos rfl, List.dlookup_eq_none.mpr hnot, Option.getD_some,
              Option.getD_none, add_zero]
          · rw [List.dlookup_cons_ne _ _ hk, if_neg hk, zero_add]
        rw [List.map_cons, List.sum_cons, Finset.sum_congr rfl hpoint, Finset.sum_add_distrib,
          Finset.sum_ite_eq', if_pos (hkeys e.1 (by simp)),
          ih (List.nodupKeys_cons.mp hd).2 fun k hk => hkeys k (by simp [hk])]
  rw [total, toPairs, List.map_map]
  exact hentries m.entries m.nodupKeys hS

/-- Totals add up as the counters do. -/
theorem total_add {m m₁ m₂ : UMap κ M}
    (h : ∀ k, UMap.getD m k 0 = UMap.getD m₁ k 0 + UMap.getD m₂ k 0) :
    m.total = m₁.total + m₂.total := by
  let S : Finset κ := (m.keys ++ (m₁.keys ++ m₂.keys)).toFinset
  rw [m.total_eq_sum (S := S) fun k hk => by simp [S, hk],
    m₁.total_eq_sum (S := S) fun k hk => by simp [S, hk],
    m₂.total_eq_sum (S := S) fun k hk => by simp [S, hk], ← Finset.sum_add_distrib]
  exact Finset.sum_congr rfl fun k _ => h k

theorem total_congr {m m' : UMap κ M} (h : ∀ k, UMap.getD m k 0 = UMap.getD m' k 0) :
    m.total = m'.total := by
  let S : Finset κ := (m.keys ++ m'.keys).toFinset
  rw [m.total_eq_sum (S := S) fun k hk => by simp [S, hk],
    m'.total_eq_sum (S := S) fun k hk => by simp [S, hk]]
  exact Finset.sum_congr rfl fun k _ => h k

theorem total_zero {m : UMap κ M} (h : ∀ k, UMap.getD m k 0 = 0) : m.total = 0 := by
  rw [m.total_eq_sum (S := m.keys.toFinset) fun k hk => List.mem_toFinset.mpr hk]
  exact Finset.sum_eq_zero fun k _ => h k

theorem getD_singleton (k k' : κ) (v : M) :
    UMap.getD (AList.singleton k v : UMap κ M) k' 0 = if k' = k then v else 0 := by
  rw [← AList.insert_empty, getD_insert, getD_empty]

end UMap
end Mawmaw.Lib
