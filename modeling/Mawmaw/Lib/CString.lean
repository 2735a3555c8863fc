import Mathlib.Algebra.Order.Ring.Int
import Mathlib.Data.List.TakeWhile
import Mathlib.Data.List.GetD

/-!
# Byte strings and fixed character arrays

* `Str` : a byte string; `lit` : the bytes of an ASCII literal;
* `cstr` : the string a NUL-terminated buffer holds;
* `strncpy`, `strncmpEq` : the C library functions on fixed arrays;
* `toList_strncpy_zero` : the first bytes of the string and zeros, in a zeroed array;
* `cstr_strncpy_set_last` : the string of an array filled by `strncpy` and terminated.
-/

namespace Mawmaw.Lib

abbrev Str := List UInt8

/-- The bytes of an ASCII literal. -/
def lit (s : String) : Str := s.toList.map fun c => UInt8.ofNat c.toNat

/-- The string held by a buffer: the bytes before its first NUL. -/
def cstr (buf : List UInt8) : Str := buf.takeWhile (· != 0)

/-- A string a C string can represent. -/
def NulFree (s : Str) : Prop := ∀ b ∈ s, b ≠ 0

instance (s : Str) : Decidable (NulFree s) := inferInstanceAs (Decidable (∀ b ∈ s, b ≠ 0))

/-- `strncpy(dst, src, m)`: `m` bytes are written, the string's first and then zeros. -/
def strncpy {n : Nat} (dst : Vector UInt8 n) (src : Str) (m : Nat) : Vector UInt8 n :=
  Vector.ofFn fun i => if i.val < m then (cstr src).getD i.val 0 else dst[i]

/-- `strncmp(a, b, n) == 0`. -/
def strncmpEq (a b : Str) (n : Nat) : Bool := (cstr a).take n == (cstr b).take n

theorem cstr_nulFree (buf : List UInt8) : NulFree (cstr buf) := by
  intro b hb
  simpa using List.mem_takeWhile_imp hb

theorem cstr_eq_self {s : Str} (h : NulFree s) : cstr s = s := by
  rw [cstr, List.takeWhile_eq_self_iff]
  intro b hb
  simpa using h b hb

theorem cstr_append_zero {s : Str} (h : NulFree s) (rest : List UInt8) :
    cstr (s ++ 0 :: rest) = s := by
  induction s with
  | nil => rfl
  | cons b s ih =>
      have hb : b ≠ 0 := h b (by simp)
      have hs : NulFree s := fun c hc => h c (by simp [hc])
      have := ih hs
      simp_all [cstr]

theorem NulFree.take {s : Str} (h : NulFree s) (n : Nat) : NulFree (s.take n) :=
  fun b hb => h b (List.mem_of_mem_take hb)

theorem toList_strncpy_zero {n : Nat} (src : Str) (m : Nat) (hm : m ≤ n) :
    (strncpy (Vector.replicate n 0) src m).toList
      = (cstr src).take m ++ List.replicate (n - ((cstr src).take m).length) 0 := by
  apply List.ext_getElem
  · simp
    omega
  · intro i h₁ h₂
    have hi : i < n := by simpa using h₁
    simp only [strncpy, Vector.getElem_toList, Vector.getElem_ofFn, Fin.getElem_fin,
      Vector.getElem_replicate]
    by_cases hs : i < ((cstr src).take m).length
    · have hs' : i < m ∧ i < (cstr src).length := by simpa [Nat.lt_min] using hs
      rw [List.getElem_append_left hs, if_pos hs'.1, List.getElem_take,
        List.getD_eq_getElem _ _ hs'.2]
    · have hs' : m ≤ i ∨ (cstr src).length ≤ i := by
        simp only [List.length_take] at hs
        omega
      rw [List.getElem_append_right (by omega), List.getElem_replicate]
      split
      · exact List.getD_eq_default _ _ (by omega)
      · rfl

/-- An array with its last byte set to NUL after a copy of the others. -/
theorem cstr_strncpy_set_last {n : Nat} (dst : Vector UInt8 (n + 1)) (src : Str) :
    cstr ((strncpy dst src n).set n 0).toList = (cstr src).take n := by
  have hzero : (strncpy dst src n).set n 0 = strncpy (Vector.replicate (n + 1) 0) src n := by
    apply Vector.ext
    intro i hi
    by_cases hin : n = i
    · subst hin
      simp [strncpy]
    · have hlt : i < n := by omega
      simp [strncpy, Vector.getElem_set_ne, hin, hlt]
  have hzeros : n + 1 - ((cstr src).take n).length
      = n - ((cstr src).take n).length + 1 := by
    have := List.length_take_le n (cstr src)
    omega
  rw [hzero, toList_strncpy_zero src n (Nat.le_succ n), hzeros, List.replicate_succ,
    cstr_append_zero ((cstr_nulFree src).take n)]

end Mawmaw.Lib
