import Mathlib.Algebra.BigOperators.Group.Finset.Piecewise
import Mathlib.Algebra.Order.Ring.Int
import Mathlib.Data.Multiset.AddSub

/-!
# Task systems

A bag of tasks, each of which, whenever it is done, leaves a fixed bag of new tasks and a fixed bag
of outputs. Tasks may be done in any order.

* `TaskSystem`, `Step`, `Steps` : one task done, and any number of them;
* `Drains M O` : doing `M` and all that comes of it gives the outputs `O`;
* `Drains.unique` : the outputs do not depend on the order;
* `Steps.drains` : steps that leave no task are such an order.
-/

namespace Mawmaw.Lib

structure TaskSystem (T O : Type) where
  next : T → Multiset T
  out : T → Multiset O

namespace TaskSystem
variable {T O : Type} (sys : TaskSystem T O)

/-- Some task `x` is done: `M` loses it and gains what it leaves. -/
def Step (M : Multiset T) (A : Multiset O) (M' : Multiset T) (A' : Multiset O) : Prop :=
  ∃ x K, M = x ::ₘ K ∧ M' = K + sys.next x ∧ A' = A + sys.out x

inductive Steps : Multiset T → Multiset O → Multiset T → Multiset O → Prop
  | refl (M : Multiset T) (A : Multiset O) : Steps M A M A
  | head {M M' M'' : Multiset T} {A A' A'' : Multiset O} :
      sys.Step M A M' A' → Steps M' A' M'' A'' → Steps M A M'' A''

/-- The tasks `M` and all they lead to can be done, with the outputs `A`. -/
inductive Drains : Multiset T → Multiset O → Prop
  | nil : Drains 0 0
  | task (x : T) {M : Multiset T} {A : Multiset O} :
      Drains (M + sys.next x) A → Drains (x ::ₘ M) (sys.out x + A)

variable {sys}

/-- Any task can be done first. -/
theorem Drains.pick {N : Multiset T} {A : Multiset O} (h : sys.Drains N A) {x : T}
    {M : Multiset T} (hN : N = x ::ₘ M) :
    ∃ A', A = sys.out x + A' ∧ sys.Drains (M + sys.next x) A' := by
  induction h generalizing x M with
  | nil => exact absurd hN.symm (Multiset.cons_ne_zero)
  | @task y N A h ih =>
      rcases Multiset.cons_eq_cons.mp hN with ⟨rfl, rfl⟩ | ⟨-, K, rfl, rfl⟩
      · exact ⟨A, rfl, h⟩
      · obtain ⟨A', rfl, h'⟩ := ih (Multiset.cons_add x K (sys.next y))
        refine ⟨sys.out y + A', by rw [← add_assoc, ← add_assoc, add_comm (sys.out y)], ?_⟩
        rw [Multiset.cons_add]
        refine .task y ?_
        rwa [add_right_comm]

/-- The outputs do not depend on the order in which the tasks are done. -/
theorem Drains.unique {M : Multiset T} {A B : Multiset O} (hA : sys.Drains M A)
    (hB : sys.Drains M B) : A = B := by
  induction hA generalizing B with
  | nil =>
      generalize hM : (0 : Multiset T) = M at hB
      cases hB with
      | nil => rfl
      | task x h => exact absurd hM.symm (Multiset.cons_ne_zero)
  | task x h ih =>
      obtain ⟨B', rfl, hB'⟩ := hB.pick rfl
      rw [ih hB']

/-- Steps until no task is left drain the tasks they started with. -/
theorem Steps.drains {M M' : Multiset T} {A A' : Multiset O} (h : sys.Steps M A M' A')
    (hM' : M' = 0) : ∃ B, sys.Drains M B ∧ A' = A + B := by
  induction h with
  | refl M A =>
      rw [hM']
      exact ⟨0, .nil, (add_zero A).symm⟩
  | head hstep _ ih =>
      obtain ⟨x, K, rfl, rfl, rfl⟩ := hstep
      obtain ⟨B, hB, rfl⟩ := ih hM'
      exact ⟨sys.out x + B, .task x hB, add_assoc _ _ _⟩

theorem Steps.unique {M : Multiset T} {A A₁ A₂ : Multiset O} (h₁ : sys.Steps M A 0 A₁)
    (h₂ : sys.Steps M A 0 A₂) : A₁ = A₂ := by
  obtain ⟨B₁, hB₁, rfl⟩ := h₁.drains rfl
  obtain ⟨B₂, hB₂, rfl⟩ := h₂.drains rfl
  rw [hB₁.unique hB₂]

end TaskSystem

/-! ## Bags of tasks in lists -/

section Bags
variable {α : Type}

/-- Several work lists as one bag: putting `new` in the place of one of them. -/
theorem flatten_set_bag {l : List (List α)} {i : Nat} {old : List α} (h : l[i]? = some old) :
    ∃ K : Multiset α, (l.flatten : Multiset α) = K + (old : Multiset α) ∧
      ∀ new : List α, ((l.set i new).flatten : Multiset α) = K + (new : Multiset α) := by
  obtain ⟨hi, hget⟩ := List.getElem?_eq_some_iff.mp h
  have hl : l.set i old = l := by rw [← hget, List.set_getElem_self]
  have hset : ∀ new : List α, ((l.set i new).flatten : Multiset α)
      = ((l.take i).flatten ++ (l.drop (i + 1)).flatten : List α) + (new : Multiset α) := by
    intro new
    rw [List.set_eq_take_append_cons_drop, if_pos hi, List.flatten_append, List.flatten_cons]
    simp only [← Multiset.coe_add]
    ac_rfl
  refine ⟨_, ?_, hset⟩
  rw [← hset, hl]

theorem sum_range_change {n i : Nat} (hi : i < n) {q q' : Nat → Multiset α} {d : Multiset α}
    (hne : ∀ j, j ≠ i → q' j = q j) (heq : q' i = q i + d) :
    ∑ j ∈ Finset.range n, q' j = (∑ j ∈ Finset.range n, q j) + d := by
  have hq : ∀ j ∈ Finset.range n, q' j = q j + if j = i then d else 0 := by
    intro j _
    by_cases hj : j = i
    · rw [hj, heq, if_pos rfl]
    · rw [hne j hj, if_neg hj, add_zero]
  rw [Finset.sum_congr rfl hq, Finset.sum_add_distrib, Finset.sum_ite_eq',
    if_pos (Finset.mem_range.mpr hi)]

end Bags

end Mawmaw.Lib
