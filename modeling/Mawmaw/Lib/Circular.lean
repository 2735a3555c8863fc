import Mathlib.Algebra.Order.Ring.Int
import Mathlib.Data.Nat.ModEq
import Mathlib.Data.Nat.Bitwise
import Mathlib.Order.Bounds.Basic
import Mathlib.Tactic.Ring

/-!
# Positions of a circular array

Items with positions `0, 1, 2, ...` are stored in an array of `c` slots, position `j` in slot
`j % c`. After `n` items, the slot of a position `s < n` holds the item of `latest c n s`, the
largest position below `n` in the same slot (`isGreatest_latest`), which is `laps c n s` laps after
`s`.
-/

namespace Mawmaw.Lib

/-- How often the slot of position `s` has been overwritten once `n` items are stored. -/
def laps (c n s : Nat) : Nat := (n - 1 - s) / c

/-- The position whose item the slot of `s` holds once `n` items are stored. -/
def latest (c n s : Nat) : Nat := s + c * laps c n s

variable {c n s : Nat}

theorem latest_lt (h : s < n) : latest c n s < n := by
  have := Nat.mul_div_le (n - 1 - s) c
  unfold latest laps
  omega

theorem le_latest_add (hc : 0 < c) (h : s < n) : n ≤ latest c n s + c := by
  have := Nat.lt_mul_div_succ (n - 1 - s) hc
  unfold latest laps
  rw [Nat.mul_add, Nat.mul_one] at this
  omega

theorem latest_mod : latest c n s % c = s % c := by
  simp [latest]

/-- Two positions of one slot less than a lap apart are equal. -/
theorem eq_of_mod_eq {i j : Nat} (h : i % c = j % c) (hij : i < j + c) (hji : j < i + c) :
    i = j := by
  rcases Nat.lt_or_ge i j with hlt | hge
  · have hdvd : c ∣ j - i := (Nat.modEq_iff_dvd' (le_of_lt hlt)).mp h
    have := Nat.le_of_dvd (by omega) hdvd
    omega
  · have hdvd : c ∣ i - j := (Nat.modEq_iff_dvd' hge).mp h.symm
    rcases Nat.eq_zero_or_pos (i - j) with h0 | hpos
    · omega
    · have := Nat.le_of_dvd hpos hdvd
      omega

/-- A position of the slot that is less than a lap old is the latest. -/
theorem latest_eq {j : Nat} (hc : 0 < c) (h : s < n) (hj : j < n) (hlap : n ≤ j + c)
    (hslot : j % c = s % c) : latest c n s = j := by
  have hlt : latest c n s < n := latest_lt h
  have hle : n ≤ latest c n s + c := le_latest_add hc h
  have hmod : latest c n s % c = j % c := by rw [latest_mod, hslot]
  exact eq_of_mod_eq hmod (by omega) (by omega)

theorem latest_eq_self_iff (hc : 0 < c) (h : s < n) : latest c n s = s ↔ n - s ≤ c := by
  constructor
  · intro heq
    have hle : n ≤ latest c n s + c := le_latest_add hc h
    omega
  · intro hlap
    exact latest_eq hc h h (by omega) rfl

theorem isGreatest_latest (hc : 0 < c) (h : s < n) :
    IsGreatest {j | j < n ∧ j ≡ s [MOD c]} (latest c n s) := by
  refine ⟨⟨latest_lt h, latest_mod⟩, fun j hj => ?_⟩
  rcases Nat.lt_or_ge (latest c n s) j with hlater | hle
  · have hlap : n ≤ latest c n s + c := le_latest_add hc h
    exact le_of_eq (latest_eq hc h hj.1 (by omega) hj.2).symm
  · exact hle

end Mawmaw.Lib
