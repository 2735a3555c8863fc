import Mathlib.Data.List.Infix

/-!
# One item after another

* `readAll` : items are read from the front of a text as long as a whole one is there;
* `Reads read enc out` : `read` takes the encodings `enc`, and what it takes does not depend on what
  follows; `Reads.none_of_part` : it takes no part of one;
* `Reads.readAll` : the encodings of some items and a part of one more;
* `Reads.readAll_more` : of more text as many items are read, or more.
-/

namespace Mawmaw.Lib

variable {ι α β : Type} {read : List β → Option (α × List β)} {enc : ι → List β} {out : ι → α}

/-- At most `n` items, and what is left. -/
def readAll (read : List β → Option (α × List β)) : Nat → List β → List α × List β
  | 0, s => ([], s)
  | n + 1, s =>
    match read s with
    | none => ([], s)
    | some (a, rest) => (a :: (readAll read n rest).1, (readAll read n rest).2)

structure Reads (read : List β → Option (α × List β)) (enc : ι → List β) (out : ι → α) : Prop where
  empty : read [] = none
  whole : ∀ i, read (enc i) = some (out i, [])
  more : ∀ {s a rest}, read s = some (a, rest) → ∀ u, read (s ++ u) = some (a, rest ++ u)

theorem Reads.none_of_part (h : Reads read enc out) {i : ι} {t : List β} (ht : t <+: enc i)
    (hne : t ≠ enc i) : read t = none := by
  obtain ⟨u, hu⟩ := ht
  cases hread : read t with
  | none => rfl
  | some r =>
      obtain ⟨a, rest⟩ := r
      have hwhole := h.more hread u
      rw [hu, h.whole] at hwhole
      have hnil : rest ++ u = [] := (Prod.mk.inj (Option.some.inj hwhole)).2.symm
      rw [(List.append_eq_nil_iff.mp hnil).2, List.append_nil] at hu
      exact absurd hu hne

theorem Reads.readAll (h : Reads read enc out) {t : List β}
    (ht : t = [] ∨ ∃ i, t <+: enc i ∧ t ≠ enc i) (is : List ι) {n : Nat} (hn : is.length ≤ n) :
    readAll read n (is.flatMap enc ++ t) = (is.map out, t) := by
  induction is generalizing n with
  | nil =>
      have hnone : read t = none := by
        rcases ht with rfl | ⟨i, hpart, hne⟩
        · exact h.empty
        · exact h.none_of_part hpart hne
      cases n with
      | zero => rfl
      | succ n =>
          show Lib.readAll read (n + 1) t = _
          rw [Lib.readAll, hnone]
          rfl
  | cons i is ih =>
      obtain ⟨n, rfl⟩ := Nat.exists_eq_succ_of_ne_zero (Nat.ne_of_gt (Nat.zero_lt_of_lt hn))
      have hread : read (enc i ++ (is.flatMap enc ++ t)) = some (out i, is.flatMap enc ++ t) :=
        h.more (h.whole i) _
      rw [List.flatMap_cons, List.append_assoc, Lib.readAll, hread]
      dsimp only
      rw [ih (Nat.le_of_succ_le_succ hn)]
      rfl

theorem Reads.readAll_more (h : Reads read enc out) {n m : Nat} (hn : n ≤ m) (s u : List β) :
    (Lib.readAll read n s).1 <+: (Lib.readAll read m (s ++ u)).1 := by
  induction n generalizing m s with
  | zero => exact List.nil_prefix
  | succ n ih =>
      obtain ⟨m, rfl⟩ := Nat.exists_eq_succ_of_ne_zero (Nat.ne_of_gt (Nat.zero_lt_of_lt hn))
      rw [Lib.readAll, Lib.readAll]
      cases hread : read s with
      | none => exact List.nil_prefix
      | some r =>
          obtain ⟨a, rest⟩ := r
          rw [h.more hread u]
          exact (List.prefix_cons_inj a).mpr (ih (Nat.le_of_succ_le_succ hn) rest)

end Mawmaw.Lib
