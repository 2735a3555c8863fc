import Mathlib.Data.List.GetD

/-!
# Base64 decoding

* `Base64.alphabet` : the 64 characters, in the order of their values; `digit`, `value`;
* `Base64.decode` : groups of four characters, the last of them padded, with no bits left over;
* `decode_three`, `decode_two`, `decode_one` : what the groups of three bytes, two and one decode to.
-/

namespace Mawmaw.Lib.Base64

/-- The ASCII codes from `first` on. -/
def codes (first n : Nat) : List UInt8 := (List.range n).map fun i => UInt8.ofNat (first + i)

/-- `A` to `Z`, `a` to `z`, `0` to `9`, `+` and `/`. -/
def alphabet : List UInt8 := codes 65 26 ++ codes 97 26 ++ codes 48 10 ++ [43, 47]

/-- `=`. -/
def pad : UInt8 := 61

def digit (v : Nat) : UInt8 := alphabet.getD v 0

def value (c : UInt8) : Option Nat := alphabet.idxOf? c

/-- The bytes of three, two and one of them that four characters of the given values stand for. -/
def bytes₃ (x y z w : Nat) : List UInt8 :=
  [UInt8.ofNat (x * 4 + y / 16), UInt8.ofNat (y % 16 * 16 + z / 4), UInt8.ofNat (z % 4 * 64 + w)]

def bytes₂ (x y z : Nat) : List UInt8 :=
  [UInt8.ofNat (x * 4 + y / 16), UInt8.ofNat (y % 16 * 16 + z / 4)]

def bytes₁ (x y : Nat) : List UInt8 := [UInt8.ofNat (x * 4 + y / 16)]

def decode : List UInt8 → Option (List UInt8)
  | [] => some []
  | c₁ :: c₂ :: c₃ :: c₄ :: rest =>
    match value c₁, value c₂ with
    | some x, some y =>
      if c₃ = pad then
        if c₄ = pad ∧ rest = [] ∧ y % 16 = 0 then some (bytes₁ x y) else none
      else
        match value c₃ with
        | some z =>
          if c₄ = pad then
            if rest = [] ∧ z % 4 = 0 then some (bytes₂ x y z) else none
          else
            match value c₄ with
            | some w => (decode rest).map fun bs => bytes₃ x y z w ++ bs
            | none => none
        | none => none
    | _, _ => none
  | _ => none

theorem length_alphabet : alphabet.length = 64 := by decide

theorem digit_mem {v : Nat} (h : v < 64) : digit v ∈ alphabet := by
  have hlen : v < alphabet.length := by rwa [length_alphabet]
  rw [digit, List.getD_eq_getElem _ _ hlen]
  exact List.getElem_mem hlen

theorem value_digit {v : Nat} (h : v < 64) : value (digit v) = some v := by
  have hall : ∀ i : Fin 64, value (digit i.val) = some i.val := by decide +kernel
  exact hall ⟨v, h⟩

theorem digit_ne_pad {v : Nat} (h : v < 64) : digit v ≠ pad := by
  have hall : ∀ i : Fin 64, digit i.val ≠ pad := by decide +kernel
  exact hall ⟨v, h⟩

section
variable {x y z w : Nat} (hx : x < 64) (hy : y < 64)
include hx hy

theorem decode_three (hz : z < 64) (hw : w < 64) (rest : List UInt8) :
    decode (digit x :: digit y :: digit z :: digit w :: rest)
      = (decode rest).map fun bs => bytes₃ x y z w ++ bs := by
  simp only [decode, value_digit hx, value_digit hy, value_digit hz, value_digit hw,
    if_neg (digit_ne_pad hz), if_neg (digit_ne_pad hw)]

theorem decode_two (hz : z < 64) (h : z % 4 = 0) :
    decode [digit x, digit y, digit z, pad] = some (bytes₂ x y z) := by
  simp only [decode, value_digit hx, value_digit hy, value_digit hz, if_neg (digit_ne_pad hz), h,
    and_self, if_true]

theorem decode_one (h : y % 16 = 0) :
    decode [digit x, digit y, pad, pad] = some (bytes₁ x y) := by
  simp only [decode, value_digit hx, value_digit hy, h, and_self, if_true]

end

end Mawmaw.Lib.Base64
