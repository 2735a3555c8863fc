import Mathlib.Algebra.BigOperators.Group.Multiset.Basic
import Mawmaw.Lib.Schedule

/-!
# Ledgers

A system whose turns bring something in. What a run has brought in is the sum over its turns, and a
quantity that grows by exactly that much at every turn has grown by exactly that much at the end.

* `gained step gain s ts` : what the turns `ts` bring in from state `s` on;
* `mem_gained` : some turn brought it in;
* `balance` : a quantity that books every gain;
* `gained_le` : a budget that every gain is paid from;
* `copies` : as many copies of an item as a list has of a key.
-/

namespace Mawmaw.Lib

section
variable {σ τ M : Type} [AddCommMonoid M] {step : σ → τ → σ} {gain : σ → τ → M}

/-- What a run brings in. -/
def gained (step : σ → τ → σ) (gain : σ → τ → M) : σ → List τ → M
  | _, [] => 0
  | s, t :: ts => gain s t + gained step gain (step s t) ts

theorem mem_gained {ι : Type} {gain : σ → τ → Multiset ι} {x : ι} (s : σ) (ts : List τ)
    (h : x ∈ gained step gain s ts) : ∃ s' t, x ∈ gain s' t := by
  induction ts generalizing s with
  | nil => exact absurd h (Multiset.notMem_zero x)
  | cons t ts ih =>
      rcases Multiset.mem_add.mp h with hnow | hlater
      · exact ⟨s, t, hnow⟩
      · exact ih (step s t) hlater

variable (gain) in
/-- A quantity that books every gain of the turns that meet `C`, in the states that meet `Inv`. -/
theorem balance (Inv : σ → Prop) (C : σ → τ → Prop) (booked : σ → M)
    (hinv : ∀ s t, Inv s → Inv (step s t))
    (hstep : ∀ s t, Inv s → C s t → booked (step s t) = booked s + gain s t) (ts : List τ) :
    ∀ s, Inv s → Along step C s ts →
      booked (ts.foldl step s) = booked s + gained step gain s ts := by
  induction ts with
  | nil =>
      intro s _ _
      exact (add_zero _).symm
  | cons t ts ih =>
      intro s hs hC
      rw [List.foldl_cons, ih _ (hinv s t hs) hC.2, hstep s t hs hC.1, gained, add_assoc]

/-- No run gains more than a budget from which each turn pays for its gain. -/
theorem gained_le {step : σ → τ → σ} {gain : σ → τ → Nat} (Inv : σ → Prop) (budget : σ → Nat)
    (hinv : ∀ s t, Inv s → Inv (step s t))
    (hpay : ∀ s t, Inv s → gain s t + budget (step s t) ≤ budget s) (ts : List τ) :
    ∀ s, Inv s → gained step gain s ts + budget (ts.foldl step s) ≤ budget s := by
  induction ts with
  | nil =>
      intro s _
      exact (Nat.zero_add _).le
  | cons t ts ih =>
      intro s hs
      have hnow := hpay s t hs
      have hlater := ih _ (hinv s t hs)
      rw [List.foldl_cons, gained]
      omega

end

section
variable {α κ : Type} [DecidableEq κ]

/-- One copy of `x` for each occurrence of the key. -/
def copies (k : κ) (keys : List κ) (x : α) : Multiset α := Multiset.replicate (keys.count k) x

theorem copies_eq_filterMap (k : κ) (keys : List κ) (x : α) :
    copies k keys x = ((keys.filterMap fun k' => if k' = k then some x else none : List α)) := by
  unfold copies
  induction keys with
  | nil => rfl
  | cons k' keys ih =>
      rw [List.filterMap_cons]
      by_cases hk : k' = k
      · simp only [hk, if_true]
        rw [← Multiset.cons_coe, ← ih, List.count_cons_self, Multiset.replicate_succ]
      · simp only [hk, if_false]
        rw [← ih, List.count_cons_of_ne hk]

end

end Mawmaw.Lib
