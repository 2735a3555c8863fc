import Mawmaw.Lib.DecimalText
import Mawmaw.Lib.ReadAll

/-!
# Lines and their fields

* `cut sep` : a text up to the first separator, and what comes after it;
* `takeLine` : a line, by a parser of lines; `reads_takeLine` : lines that the parser reads, each
  ended by the separator;
* `takeField` : a name and a numeral after the last blank; `takeField_field`.
-/

namespace Mawmaw.Lib

/-! ## Cutting at a separator -/

section Cut
variable {α β : Type} [DecidableEq β] {sep : β}

def cut (sep : β) : List β → Option (List β × List β)
  | [] => none
  | b :: s => if b = sep then some ([], s) else (cut sep s).map fun p => (b :: p.1, p.2)

theorem cut_of_not_mem {l : List β} (h : sep ∉ l) (rest : List β) :
    cut sep (l ++ sep :: rest) = some (l, rest) := by
  induction l with
  | nil => exact if_pos rfl
  | cons b l ih =>
      rw [List.mem_cons, not_or] at h
      obtain ⟨hb, hl⟩ := h
      rw [List.cons_append, cut, if_neg (Ne.symm hb), ih hl]
      rfl

theorem cut_append {s l rest : List β} (h : cut sep s = some (l, rest)) (u : List β) :
    cut sep (s ++ u) = some (l, rest ++ u) := by
  induction s generalizing l with
  | nil => cases h
  | cons b s ih =>
      rw [cut] at h
      rw [List.cons_append, cut]
      split
      · rename_i hb
        rw [if_pos hb] at h
        obtain ⟨rfl, rfl⟩ := Prod.mk.inj (Option.some.inj h)
        rfl
      · rename_i hb
        rw [if_neg hb] at h
        obtain ⟨p, hp, heq⟩ := Option.map_eq_some_iff.mp h
        obtain ⟨rfl, rfl⟩ := Prod.mk.inj heq
        rw [ih hp]
        rfl

/-! ## Lines -/

def takeLine (sep : β) (parse : List β → Option α) (s : List β) : Option (α × List β) :=
  (cut sep s).bind fun p => (parse p.1).map fun a => (a, p.2)

theorem reads_takeLine {ι : Type} {parse : List β → Option α} {line : ι → List β} {out : ι → α}
    (hsep : ∀ i, sep ∉ line i) (hparse : ∀ i, parse (line i) = some (out i)) :
    Reads (takeLine sep parse) (fun i => line i ++ [sep]) out where
  empty := rfl
  whole i := by
    rw [takeLine, cut_of_not_mem (hsep i), Option.bind_some, hparse]
    rfl
  more {s a rest} h u := by
    obtain ⟨p, hp, hmap⟩ := Option.bind_eq_some_iff.mp h
    obtain ⟨b, hb, heq⟩ := Option.map_eq_some_iff.mp hmap
    obtain ⟨rfl, rfl⟩ := Prod.mk.inj heq
    rw [takeLine, cut_append hp u, Option.bind_some, hb]
    rfl

end Cut

/-! ## Fields -/

def blank : UInt8 := 32

/-- The text before the last blank, and the number after it under the name `name`. -/
def takeField (name s : Str) : Option (Str × Nat) :=
  (cut blank s.reverse).bind fun p =>
    let n := decimal (p.1.reverse.drop name.length)
    if p.1.reverse = name ++ natStr n then some (p.2.reverse, n) else none

theorem not_mem_natStr {b : UInt8} (hb : isDigit b = false) (n : Nat) : b ∉ natStr n := by
  intro hmem
  rw [isDigit_natStr n b hmem] at hb
  cases hb

theorem takeField_field {name : Str} (hname : blank ∉ name) (s : Str) (n : Nat) :
    takeField name (s ++ blank :: (name ++ natStr n)) = some (s, n) := by
  have hword : blank ∉ (name ++ natStr n).reverse := by
    rw [List.mem_reverse, List.mem_append, not_or]
    exact ⟨hname, not_mem_natStr rfl n⟩
  have hrev : (s ++ blank :: (name ++ natStr n)).reverse
      = (name ++ natStr n).reverse ++ blank :: s.reverse := by
    rw [List.reverse_append, List.reverse_cons, List.append_assoc, List.singleton_append]
  have hcut : cut blank (s ++ blank :: (name ++ natStr n)).reverse
      = some ((name ++ natStr n).reverse, s.reverse) := by
    rw [hrev]
    exact cut_of_not_mem hword s.reverse
  rw [takeField, hcut, Option.bind_some]
  simp only [List.reverse_reverse, List.drop_left, decimal_natStr, if_true]

end Mawmaw.Lib
