import Mathlib.Data.List.Nodup
import Mathlib.Logic.Function.Basic

/-!
# Tables of handles

Numbers that stand for objects while these are open, and may stand for another object later.

* `HandleTable` : the object each number stands for, and the objects closed so far;
* `HandleTable.Inv` : no object has two numbers, is closed twice, or is open once it is closed.
-/

namespace Mawmaw.Lib

structure HandleTable (κ : Type) where
  object : Nat → Option κ := fun _ => none
  closed : List κ := []

namespace HandleTable
variable {κ : Type} {t : HandleTable κ} {n m : Nat} {o : κ}

/-- The number stands for the object from now on. -/
def openAt (t : HandleTable κ) (n : Nat) (o : κ) : HandleTable κ :=
  { t with object := Function.update t.object n (some o) }

/-- The number stands for nothing from now on; what it stood for is closed. -/
def close (t : HandleTable κ) (n : Nat) : HandleTable κ where
  object := Function.update t.object n none
  closed := t.closed ++ (t.object n).toList

theorem openAt_self : (t.openAt n o).object n = some o := Function.update_self n _ _

theorem openAt_ne (h : m ≠ n) : (t.openAt n o).object m = t.object m :=
  Function.update_of_ne h _ _

theorem close_self : (t.close n).object n = none := Function.update_self n _ _

theorem close_ne (h : m ≠ n) : (t.close n).object m = t.object m := Function.update_of_ne h _ _

theorem close_some (h : (t.close n).object m = some o) : m ≠ n ∧ t.object m = some o := by
  by_cases hmn : m = n
  · subst hmn
    rw [close_self] at h
    cases h
  · exact ⟨hmn, by rwa [close_ne hmn] at h⟩

structure Inv (t : HandleTable κ) : Prop where
  unique : ∀ m n o, t.object m = some o → t.object n = some o → m = n
  nodup : t.closed.Nodup
  shut : ∀ n o, t.object n = some o → o ∉ t.closed

theorem inv_empty : ({} : HandleTable κ).Inv where
  unique _ _ _ h := by cases h
  nodup := List.nodup_nil
  shut _ _ h := by cases h

/-- A new object may be given any number. -/
theorem Inv.openAt (h : t.Inv) (hnew : ∀ m, t.object m ≠ some o) (hclosed : o ∉ t.closed) :
    (t.openAt n o).Inv where
  unique m m' p hm hm' := by
    by_cases hmn : m = n <;> by_cases hmn' : m' = n
    · rw [hmn, hmn']
    · rw [hmn, openAt_self] at hm
      rw [openAt_ne hmn', ← hm] at hm'
      exact absurd hm' (hnew m')
    · rw [hmn', openAt_self] at hm'
      rw [openAt_ne hmn, ← hm'] at hm
      exact absurd hm (hnew m)
    · rw [openAt_ne hmn] at hm
      rw [openAt_ne hmn'] at hm'
      exact h.unique m m' p hm hm'
  nodup := h.nodup
  shut m p hm := by
    by_cases hmn : m = n
    · rw [hmn, openAt_self] at hm
      rw [← Option.some.inj hm]
      exact hclosed
    · rw [openAt_ne hmn] at hm
      exact h.shut m p hm

/-- Any number may be closed, in use or not. -/
theorem Inv.close (h : t.Inv) : (t.close n).Inv where
  unique m m' p hm hm' := h.unique m m' p (close_some hm).2 (close_some hm').2
  nodup := by
    show (t.closed ++ (t.object n).toList).Nodup
    cases hobject : t.object n with
    | none => simpa using h.nodup
    | some p =>
        rw [Option.toList_some, List.nodup_append]
        refine ⟨h.nodup, List.nodup_singleton p, fun q hq r hr => ?_⟩
        rw [List.mem_singleton] at hr
        rintro rfl
        exact h.shut n p hobject (hr ▸ hq)
  shut m p hm := by
    obtain ⟨hmn, hm⟩ := close_some hm
    show p ∉ t.closed ++ (t.object n).toList
    rw [List.mem_append, Option.mem_toList]
    rintro (hclosed | hobject)
    · exact h.shut m p hm hclosed
    · exact hmn (h.unique m n p hm hobject)

end HandleTable

end Mawmaw.Lib
