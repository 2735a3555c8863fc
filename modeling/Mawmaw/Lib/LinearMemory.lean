import Mawmaw.Lib.LittleEndian

/-!
# Linear memory

A memory is the list of its bytes; an access outside it traps.

* `splice` : the memory after some bytes have been written; `splice_append`, `slice_splice`,
  `getD_splice` : what is where;
* `load`, `store` : accesses with the check; `store_append` : stores one behind the other are one;
* `copyBytes` : a copy byte by byte; `copyBytes_eq` : onto bytes it does not read;
* `foldl_set_eq_splice` : bytes stored one by one.
-/

namespace Mawmaw.Lib

variable {mem bs : List UInt8} {p q n : Nat}

/-! ## Writing -/

def splice (mem : List UInt8) (p : Nat) (bs : List UInt8) : List UInt8 :=
  mem.take p ++ (bs ++ mem.drop (p + bs.length))

@[simp] theorem splice_nil : splice mem p [] = mem := by
  rw [splice, List.nil_append, List.length_nil, Nat.add_zero, List.take_append_drop]

theorem length_splice (h : p + bs.length ≤ mem.length) : (splice mem p bs).length = mem.length := by
  rw [splice, List.length_append, List.length_append, List.length_take, List.length_drop]
  omega

theorem splice_append (a b : List UInt8) (h : p + a.length ≤ mem.length) :
    splice (splice mem p a) (p + a.length) b = splice mem p (a ++ b) := by
  have htake : (mem.take p).length = p := List.length_take_of_le (by omega)
  have hfront : (splice mem p a).take (p + a.length) = mem.take p ++ a := by
    rw [splice, ← List.append_assoc, List.take_left' (by rw [List.length_append, htake])]
  have hback : (splice mem p a).drop (p + a.length + b.length) = mem.drop (p + (a ++ b).length) := by
    rw [splice, ← List.append_assoc, ← List.drop_drop,
      List.drop_left' (by rw [List.length_append, htake]), List.drop_drop, List.length_append,
      Nat.add_assoc]
  rw [splice, hfront, hback, splice, List.append_assoc, List.append_assoc]

/-- What lies before the bytes written. -/
theorem slice_splice (h : q + n ≤ p) (hp : p ≤ mem.length) :
    slice (splice mem p bs) q n = slice mem q n := by
  have htake : (mem.take p).length = p := List.length_take_of_le hp
  have hrest : ∀ rest, slice (mem.take p ++ rest) q n = slice (mem.take p) q n := by
    intro rest
    rw [slice, slice, List.drop_append_of_le_length (by omega),
      List.take_append_of_le_length (by rw [List.length_drop]; omega)]
  rw [splice, hrest, ← hrest (mem.drop p), List.take_append_drop]

theorem getD_splice (i : Nat) (h : p + bs.length ≤ mem.length) : (splice mem p bs).getD i 0
    = if p ≤ i ∧ i < p + bs.length then bs.getD (i - p) 0 else mem.getD i 0 := by
  have htake : (mem.take p).length = p := List.length_take_of_le (by omega)
  simp only [List.getD_eq_getElem?_getD]
  rw [splice]
  rcases Nat.lt_or_ge i p with hlt | hge
  · rw [if_neg (by omega), List.getElem?_append_left (by omega), List.getElem?_take_of_lt hlt]
  · rw [List.getElem?_append_right (by omega), htake]
    rcases Nat.lt_or_ge i (p + bs.length) with hin | hout
    · rw [if_pos ⟨hge, hin⟩, List.getElem?_append_left (by omega)]
    · rw [if_neg (by omega), List.getElem?_append_right (by omega), List.getElem?_drop]
      congr 2
      omega

theorem slice_eq_map (h : p + n ≤ mem.length) :
    slice mem p n = (List.range n).map fun i => mem.getD (p + i) 0 := by
  apply List.ext_getElem
  · rw [length_slice _ _ _ h, List.length_map, List.length_range]
  · intro i h₁ h₂
    rw [length_slice _ _ _ h] at h₁
    rw [List.getElem_map, List.getElem_range, List.getD_eq_getElem _ _ (by omega)]
    simp only [slice, List.getElem_take, List.getElem_drop]

/-! ## Accesses -/

def load (mem : List UInt8) (p n : Nat) : Option (List UInt8) :=
  if p + n ≤ mem.length then some (slice mem p n) else none

def store (mem : List UInt8) (p : Nat) (bs : List UInt8) : Option (List UInt8) :=
  if p + bs.length ≤ mem.length then some (splice mem p bs) else none

theorem load_eq (h : p + n ≤ mem.length) : load mem p n = some (slice mem p n) := if_pos h

theorem store_eq (h : p + bs.length ≤ mem.length) : store mem p bs = some (splice mem p bs) := if_pos h

/-- One more store behind what has been written. -/
theorem store_append {a b : List UInt8} (hq : q = p + a.length)
    (h : p + (a ++ b).length ≤ mem.length) :
    store (splice mem p a) q b = some (splice mem p (a ++ b)) := by
  subst hq
  rw [List.length_append] at h
  rw [store_eq (by rw [length_splice (by omega)]; omega), splice_append a b (by omega)]

/-- `n` rounds of `*d++ = *s++`. -/
def copyBytes : Nat → List UInt8 → Nat → Nat → Option (List UInt8)
  | 0, mem, _, _ => some mem
  | n + 1, mem, d, s => do
    let b ← load mem s 1
    let mem ← store mem d b
    copyBytes n mem (d + 1) (s + 1)

theorem copyBytes_eq {d s : Nat} (hdisjoint : s + n ≤ d) (h : d + n ≤ mem.length) :
    copyBytes n mem d s = some (splice mem d (slice mem s n)) := by
  induction n generalizing mem d s with
  | zero => simp [copyBytes, slice]
  | succ n ih =>
      have hone : (slice mem s 1).length = 1 := length_slice _ _ _ (by omega)
      have hlen : (splice mem d (slice mem s 1)).length = mem.length := length_splice (by omega)
      have hsplit : slice mem s (n + 1) = slice mem s 1 ++ slice mem (s + 1) n := by
        rw [slice, slice, slice, Nat.add_comm n 1, List.take_add, List.drop_drop]
      rw [copyBytes, load_eq (by omega), Option.bind_eq_bind, Option.bind_some,
        store_eq (by omega), Option.bind_some, ih (by omega) (by omega),
        slice_splice (by omega) (by omega), hsplit]
      have hnext : d + 1 = d + (slice mem s 1).length := by rw [hone]
      rw [hnext, splice_append _ _ (by omega)]

/-- Bytes stored one by one from `p` on. -/
theorem foldl_set_eq_splice (h : p + bs.length ≤ mem.length) :
    (bs.zipIdx p).foldl (fun mem s => mem.set s.2 s.1) mem = splice mem p bs := by
  induction bs generalizing mem p with
  | nil => exact splice_nil.symm
  | cons b bs ih =>
      rw [List.length_cons] at h
      have hset : mem.set p b = splice mem p [b] := by
        rw [splice, List.set_eq_take_append_cons_drop, if_pos (by omega)]
        rfl
      rw [List.zipIdx_cons, List.foldl_cons, ih (by rw [List.length_set]; omega), hset]
      exact splice_append [b] bs (by simp; omega)

end Mawmaw.Lib
