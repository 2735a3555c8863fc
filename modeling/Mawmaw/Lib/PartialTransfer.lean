import Mathlib.Algebra.Order.Ring.Int

/-!
# Partial transfers

A loop that calls until it has moved `want` items, each call moving as many as it likes from the
front of what is left. `offer i` is the most that the `i`-th call moves; a call that moves nothing
ends the loop.

* `transfer` : the loop;
* `transfer_done`, `transfer_dry` : what it has moved when it ends, if every call moves something.
-/

namespace Mawmaw.Lib

/-- All is moved, nothing is left to move, or a call has moved nothing. -/
inductive Ending
  | done
  | dry
  | refused
  deriving DecidableEq, Repr

structure Transfer (α : Type) where
  got : List α
  left : List α
  calls : Nat
  ending : Ending
  deriving DecidableEq, Repr

/-- `while (got < want) { n = call(rest); if (n <= 0) return false; got += n; }`. -/
def transfer {α : Type} (offer : Nat → Nat) (calls want : Nat) (got left : List α) : Transfer α :=
  if want = 0 then ⟨got, left, calls, .done⟩
  else if left.length = 0 then ⟨got, left, calls, .dry⟩
  else
    let n := min (offer calls) (min want left.length)
    if 0 < n then transfer offer (calls + 1) (want - n) (got ++ left.take n) (left.drop n)
    else ⟨got, left, calls + 1, .refused⟩
termination_by want

section
variable {α : Type} {offer : Nat → Nat} (hoffer : ∀ i, 0 < offer i)
include hoffer

/-- One call is a shorter transfer of the rest. -/
theorem transfer_call (calls : Nat) {want : Nat} (got : List α) {left : List α} (hwant : 0 < want)
    (hleft : 0 < left.length) : ∃ n, 0 < n ∧ n ≤ want ∧ n ≤ left.length ∧
      transfer offer calls want got left =
        transfer offer (calls + 1) (want - n) (got ++ left.take n) (left.drop n) := by
  have hmoves := hoffer calls
  have hn : 0 < min (offer calls) (min want left.length) := by omega
  refine ⟨min (offer calls) (min want left.length), hn, by omega, by omega, ?_⟩
  rw [transfer, if_neg (by omega), if_neg (by omega), if_pos hn]

theorem transfer_done (calls : Nat) {want : Nat} (got : List α) {left : List α}
    (h : want ≤ left.length) :
    ∃ c, transfer offer calls want got left =
      ⟨got ++ left.take want, left.drop want, c, .done⟩ := by
  induction want using Nat.strong_induction_on generalizing calls got left with
  | _ want ih =>
      obtain rfl | hwant := Nat.eq_zero_or_pos want
      · refine ⟨calls, ?_⟩
        rw [transfer, if_pos rfl, List.take_zero, List.drop_zero, List.append_nil]
      · have hleft : 0 < left.length := by omega
        obtain ⟨n, hn, hle, hlen, heq⟩ := transfer_call hoffer calls got hwant hleft
        have hrest : want - n ≤ (left.drop n).length := by
          rw [List.length_drop]
          omega
        obtain ⟨c, hc⟩ := ih (want - n) (by omega) (calls + 1) (got ++ left.take n) hrest
        refine ⟨c, ?_⟩
        have hall : n + (want - n) = want := by omega
        rw [heq, hc, List.append_assoc, ← List.take_add, List.drop_drop, hall]

theorem transfer_dry (calls : Nat) {want : Nat} (got : List α) {left : List α}
    (h : left.length < want) :
    ∃ c, transfer offer calls want got left = ⟨got ++ left, [], c, .dry⟩ := by
  induction want using Nat.strong_induction_on generalizing calls got left with
  | _ want ih =>
      obtain hnil | hleft := Nat.eq_zero_or_pos left.length
      · refine ⟨calls, ?_⟩
        rw [transfer, if_neg (by omega), if_pos hnil, List.length_eq_zero_iff.mp hnil,
          List.append_nil]
      · have hwant : 0 < want := by omega
        obtain ⟨n, hn, hle, hlen, heq⟩ := transfer_call hoffer calls got hwant hleft
        have hrest : (left.drop n).length < want - n := by
          rw [List.length_drop]
          omega
        obtain ⟨c, hc⟩ := ih (want - n) (by omega) (calls + 1) (got ++ left.take n) hrest
        refine ⟨c, ?_⟩
        rw [heq, hc, List.append_assoc, List.take_append_drop]

end

end Mawmaw.Lib
