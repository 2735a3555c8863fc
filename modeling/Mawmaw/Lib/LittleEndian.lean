import Mathlib.Algebra.Order.Ring.Int
import Mathlib.Data.Nat.Bitwise
import Mathlib.Tactic.Ring

/-!
# Little-endian byte codecs

* `toLE k v` : the `k` low bytes of `v`, least significant first; `fromLE` : the number a byte list
  spells, least significant byte first;
* `fromLE_toLE` : reading what was written, up to the width;
* `le64`, `le32`, `le16` : the shift-and-mask loops programs write a word with, equal to `toLE`;
* `ofLE64`, `ofLE32`, `ofLE16` : the shift-and-or loops programs read a word with, inverse to them;
* `slice` : a contiguous part of a byte list, with the rules for appended lists;
* `readRecords` : fixed-size records one after the other.
-/

namespace Mawmaw.Lib

/-! ## Numbers and bytes -/

/-- The `k` low bytes of `v`, least significant first. -/
def toLE : Nat → Nat → List UInt8
  | 0, _ => []
  | k + 1, v => UInt8.ofNat v :: toLE k (v / 256)

/-- The number spelled by a byte list, least significant byte first. -/
def fromLE : List UInt8 → Nat
  | [] => 0
  | b :: bs => b.toNat + 256 * fromLE bs

@[simp] theorem length_toLE (k v : Nat) : (toLE k v).length = k := by
  induction k generalizing v with
  | zero => rfl
  | succ k ih => simp [toLE, ih]

theorem fromLE_toLE (k v : Nat) : fromLE (toLE k v) = v % 256 ^ k := by
  induction k generalizing v with
  | zero => simp [toLE, fromLE, Nat.mod_one]
  | succ k ih =>
      have hb : (UInt8.ofNat v).toNat = v % 256 := by simp
      rw [toLE, fromLE, ih, hb, pow_succ', Nat.mod_mul]

theorem fromLE_lt (bs : List UInt8) : fromLE bs < 256 ^ bs.length := by
  induction bs with
  | nil => simp [fromLE]
  | cons b bs ih =>
      have hb := b.toNat_lt
      rw [fromLE, List.length_cons, pow_succ']
      omega

/-! ## Writing words -/

/-- `k` rounds of `*p++ = v & 0xFF; v >>= 8`. -/
def shiftOut : Nat → UInt64 → List UInt8
  | 0, _ => []
  | k + 1, v => (v &&& 0xFF).toUInt8 :: shiftOut k (v >>> 8)

theorem and_255 (n : Nat) : n &&& 255 = n % 256 := Nat.and_two_pow_sub_one_eq_mod n 8

theorem shiftOut_eq_toLE (k : Nat) (v : UInt64) : shiftOut k v = toLE k v.toNat := by
  induction k generalizing v with
  | zero => rfl
  | succ k ih =>
      have hlow : (v &&& 0xFF).toUInt8 = UInt8.ofNat v.toNat := by
        apply UInt8.toNat.inj
        simp [and_255]
      have hhigh : (v >>> 8).toNat = v.toNat / 256 := by
        simp [UInt64.toNat_shiftRight, Nat.shiftRight_eq_div_pow]
      rw [shiftOut, toLE, ih, hlow, hhigh]

def le64 (v : UInt64) : List UInt8 := shiftOut 8 v

def le32 (v : UInt32) : List UInt8 :=
  [(v &&& 0xFF).toUInt8, ((v >>> 8) &&& 0xFF).toUInt8, ((v >>> 16) &&& 0xFF).toUInt8,
    ((v >>> 24) &&& 0xFF).toUInt8]

def le16 (v : UInt16) : List UInt8 := [(v &&& 0xFF).toUInt8, (v >>> 8).toUInt8]

theorem le64_eq (v : UInt64) : le64 v = toLE 8 v.toNat := shiftOut_eq_toLE 8 v

theorem le32_eq (v : UInt32) : le32 v = toLE 4 v.toNat := by
  simp only [le32, toLE, List.cons.injEq, and_true]
  refine ⟨?_, ?_, ?_, ?_⟩ <;>
    · apply UInt8.toNat.inj
      simp [and_255, Nat.shiftRight_eq_div_pow]
      try omega

theorem le16_eq (v : UInt16) : le16 v = toLE 2 v.toNat := by
  simp only [le16, toLE, List.cons.injEq, and_true]
  refine ⟨?_, ?_⟩
  · apply UInt8.toNat.inj
    simp [and_255]
  · apply UInt8.toNat.inj
    simp [Nat.shiftRight_eq_div_pow]

@[simp] theorem length_le64 (v : UInt64) : (le64 v).length = 8 := rfl

@[simp] theorem length_le32 (v : UInt32) : (le32 v).length = 4 := rfl

@[simp] theorem length_le16 (v : UInt16) : (le16 v).length = 2 := rfl

/-! ## Reading words -/

/-- A shifted word takes a byte into its low end. -/
theorem shiftLeft_or_toNat (v b : Nat) (hb : b < 256) : (v <<< 8) ||| b = b + 256 * v := by
  have h := Nat.two_pow_add_eq_or_of_lt (i := 8) hb v
  rw [Nat.shiftLeft_eq, Nat.mul_comm v (2 ^ 8), ← h]
  omega

theorem or_shiftLeft_toNat (v b i : Nat) (hv : v < 2 ^ i) : v ||| (b <<< i) = v + 2 ^ i * b := by
  have h := Nat.two_pow_add_eq_or_of_lt hv b
  rw [Nat.shiftLeft_eq, Nat.mul_comm b (2 ^ i), Nat.or_comm, ← h]
  omega

/-- `for (i = k - 1; i >= 0; i--) v = (v << 8) | p[i]`. -/
def shiftIn (bs : List UInt8) : UInt64 := bs.foldr (fun b v => (v <<< 8) ||| b.toUInt64) 0

theorem shiftIn_toNat (bs : List UInt8) (h : bs.length ≤ 8) : (shiftIn bs).toNat = fromLE bs := by
  induction bs with
  | nil => rfl
  | cons b bs ih =>
      have hlen : bs.length ≤ 7 := by
        rw [List.length_cons] at h
        omega
      have hlt : fromLE bs < 256 ^ 7 :=
        lt_of_lt_of_le (fromLE_lt bs) (Nat.pow_le_pow_right (by decide) hlen)
      have hb := b.toNat_lt
      have hv : (shiftIn bs).toNat = fromLE bs := ih (by omega)
      have hstep : shiftIn (b :: bs) = (shiftIn bs <<< 8) ||| b.toUInt64 := rfl
      have hsmall : fromLE bs <<< 8 < 2 ^ 64 := by rw [Nat.shiftLeft_eq]; omega
      rw [hstep, fromLE, UInt64.toNat_or, UInt64.toNat_shiftLeft, hv]
      simp only [UInt8.toNat_toUInt64, UInt64.reduceToNat, Nat.reduceMod]
      rw [Nat.mod_eq_of_lt hsmall, shiftLeft_or_toNat _ _ hb]

/-- `for (i = 0; i < k; ++i) v |= (uint64_t)p[i] << (8 * i)`, from index `i` on. -/
def orIn : List UInt8 → Nat → UInt64 → UInt64
  | [], _, v => v
  | b :: bs, i, v => orIn bs (i + 1) (v ||| (b.toUInt64 <<< UInt64.ofNat (8 * i)))

theorem orIn_toNat (bs : List UInt8) (i : Nat) (v : UInt64) (hi : i + bs.length ≤ 8)
    (hv : v.toNat < 256 ^ i) : (orIn bs i v).toNat = v.toNat + 256 ^ i * fromLE bs := by
  induction bs generalizing i v with
  | nil => simp [orIn, fromLE]
  | cons b bs ih =>
      rw [List.length_cons] at hi
      have hb := b.toNat_lt
      have hpow : (256 : Nat) ^ i = 2 ^ (8 * i) := by rw [Nat.pow_mul]
      have hle : (2 : Nat) ^ (8 * i) * 256 ≤ 2 ^ 64 := by
        rw [show (256 : Nat) = 2 ^ 8 by rfl, ← Nat.pow_add]
        exact Nat.pow_le_pow_right (by decide) (by omega)
      have hfit : b.toNat <<< (8 * i) < 2 ^ 64 := by
        rw [Nat.shiftLeft_eq]
        calc b.toNat * 2 ^ (8 * i) < 256 * 2 ^ (8 * i) :=
              Nat.mul_lt_mul_of_pos_right hb (Nat.two_pow_pos _)
          _ ≤ 2 ^ 64 := by rw [Nat.mul_comm]; exact hle
      have hshift : (UInt64.ofNat (8 * i)).toNat % 64 = 8 * i := by
        rw [UInt64.toNat_ofNat']
        omega
      have hword : (v ||| (b.toUInt64 <<< UInt64.ofNat (8 * i))).toNat
          = v.toNat + 256 ^ i * b.toNat := by
        rw [UInt64.toNat_or, UInt64.toNat_shiftLeft, hshift, UInt8.toNat_toUInt64,
          Nat.mod_eq_of_lt hfit, or_shiftLeft_toNat _ _ _ (by rwa [hpow] at hv), hpow]
      have hnext : v.toNat + 256 ^ i * b.toNat < 256 ^ (i + 1) := by
        have hmul : 256 ^ i * b.toNat ≤ 256 ^ i * 255 := Nat.mul_le_mul_left _ (by omega)
        rw [pow_succ]
        omega
      rw [orIn, ih (i + 1) _ (by omega) (by rw [hword]; exact hnext), hword, fromLE]
      ring

def ofLE64 (bs : List UInt8) : UInt64 := shiftIn bs

/-- `p[0] | (p[1] << 8) | (p[2] << 16) | (p[3] << 24)`. -/
def ofLE32 (bs : List UInt8) : UInt32 :=
  (bs.getD 0 0).toUInt32 ||| ((bs.getD 1 0).toUInt32 <<< 8) ||| ((bs.getD 2 0).toUInt32 <<< 16)
    ||| ((bs.getD 3 0).toUInt32 <<< 24)

/-- `p[0] | (p[1] << 8)`. -/
def ofLE16 (bs : List UInt8) : UInt16 :=
  (bs.getD 0 0).toUInt16 ||| ((bs.getD 1 0).toUInt16 <<< 8)

theorem ofLE64_le64 (v : UInt64) : ofLE64 (le64 v) = v := by
  apply UInt64.toNat.inj
  have hv := v.toNat_lt
  rw [ofLE64, shiftIn_toNat _ (by simp), le64_eq, fromLE_toLE]
  omega

theorem orIn_le64 (v : UInt64) : orIn (le64 v) 0 0 = v := by
  apply UInt64.toNat.inj
  have hv := v.toNat_lt
  rw [orIn_toNat _ _ _ (by simp) (by simp), le64_eq, fromLE_toLE]
  simp

theorem ofLE32_toNat (a b c d : UInt8) : (ofLE32 [a, b, c, d]).toNat = fromLE [a, b, c, d] := by
  have ha := a.toNat_lt
  have hb := b.toNat_lt
  have hc := c.toNat_lt
  have hd := d.toNat_lt
  have h1 : b.toNat <<< 8 < 2 ^ 32 := by rw [Nat.shiftLeft_eq]; omega
  have h2 : c.toNat <<< 16 < 2 ^ 32 := by rw [Nat.shiftLeft_eq]; omega
  have h3 : d.toNat <<< 24 < 2 ^ 32 := by rw [Nat.shiftLeft_eq]; omega
  simp only [ofLE32, List.getD_cons_zero, List.getD_cons_succ, UInt32.toNat_or,
    UInt32.toNat_shiftLeft, UInt8.toNat_toUInt32, UInt32.reduceToNat, Nat.reduceMod]
  rw [Nat.mod_eq_of_lt h1, Nat.mod_eq_of_lt h2, Nat.mod_eq_of_lt h3,
    or_shiftLeft_toNat _ _ 8 (by omega), or_shiftLeft_toNat _ _ 16 (by omega),
    or_shiftLeft_toNat _ _ 24 (by omega)]
  simp only [fromLE]
  omega

theorem ofLE32_le32 (v : UInt32) : ofLE32 (le32 v) = v := by
  apply UInt32.toNat.inj
  have hv := v.toNat_lt
  have h := ofLE32_toNat (v &&& 0xFF).toUInt8 ((v >>> 8) &&& 0xFF).toUInt8
    ((v >>> 16) &&& 0xFF).toUInt8 ((v >>> 24) &&& 0xFF).toUInt8
  rw [show ofLE32 (le32 v) = ofLE32 [_, _, _, _] from rfl, h]
  have hle := fromLE_toLE 4 v.toNat
  rw [← le32_eq, le32] at hle
  rw [hle]
  omega

theorem ofLE16_toNat (a b : UInt8) : (ofLE16 [a, b]).toNat = fromLE [a, b] := by
  have ha := a.toNat_lt
  have hb := b.toNat_lt
  have h1 : b.toNat <<< 8 < 2 ^ 16 := by rw [Nat.shiftLeft_eq]; omega
  simp only [ofLE16, List.getD_cons_zero, List.getD_cons_succ, UInt16.toNat_or,
    UInt16.toNat_shiftLeft, UInt8.toNat_toUInt16, UInt16.reduceToNat, Nat.reduceMod]
  rw [Nat.mod_eq_of_lt h1, or_shiftLeft_toNat _ _ 8 (by omega)]
  simp only [fromLE]
  omega

theorem ofLE16_le16 (v : UInt16) : ofLE16 (le16 v) = v := by
  apply UInt16.toNat.inj
  have hv := v.toNat_lt
  have h := ofLE16_toNat (v &&& 0xFF).toUInt8 (v >>> 8).toUInt8
  rw [show ofLE16 (le16 v) = ofLE16 [_, _] from rfl, h]
  have hle := fromLE_toLE 2 v.toNat
  rw [← le16_eq, le16] at hle
  rw [hle]
  omega

/-! ## Slices -/

/-- The `n` bytes of `l` from offset `off` on. -/
def slice {α : Type} (l : List α) (off n : Nat) : List α := (l.drop off).take n

section Slices
variable {α : Type}

theorem length_slice (l : List α) (off n : Nat) (h : off + n ≤ l.length) :
    (slice l off n).length = n := by
  simp [slice]
  omega

theorem slice_append_right (a b : List α) (off n : Nat) :
    slice (a ++ b) (a.length + off) n = slice b off n := by
  simp [slice, List.drop_append, List.drop_eq_nil_of_le]

theorem slice_append_mid (a b c : List α) : slice (a ++ (b ++ c)) a.length b.length = b := by
  simp [slice]

/-- A field `bs` of a block that stands between `pre` and `post`. -/
theorem slice_field (pre block post a bs : List α) (h : a ++ bs <+: block) {off n : Nat}
    (ha : a.length = off) (hbs : bs.length = n) :
    slice (pre ++ (block ++ post)) (pre.length + off) n = bs := by
  obtain ⟨c, rfl⟩ := h
  rw [slice_append_right, ← ha, ← hbs]
  simp only [List.append_assoc]
  exact slice_append_mid _ _ _

theorem getD_field (block post a : List α) (x d : α) (h : a ++ [x] <+: block) {off : Nat}
    (ha : a.length = off) : (block ++ post).getD off d = x := by
  obtain ⟨c, rfl⟩ := h
  rw [List.append_assoc, List.append_assoc, List.getD_append_right _ _ _ _ (le_of_eq ha), ha,
    Nat.sub_self]
  rfl

/-- `n` records of `size` bytes each, read one after the other from offset `off` on. -/
def readRecords {β : Type} (read : List α → Nat → β) (size : Nat) (l : List α) :
    Nat → Nat → List β
  | 0, _ => []
  | n + 1, off => read l off :: readRecords read size l n (off + size)

@[simp] theorem length_readRecords {β : Type} (read : List α → Nat → β) (size : Nat) (l : List α)
    (n off : Nat) : (readRecords read size l n off).length = n := by
  induction n generalizing off with
  | zero => rfl
  | succ n ih => rw [readRecords, List.length_cons, ih]

theorem readRecords_flatMap {β γ : Type} {read : List α → Nat → β} {size : Nat}
    {enc : γ → List α} {dec : γ → β} (hsize : ∀ x, (enc x).length = size)
    (hread : ∀ (pre post : List α) x, read (pre ++ (enc x ++ post)) pre.length = dec x)
    (xs : List γ) (pre post : List α) :
    readRecords read size (pre ++ (xs.flatMap enc ++ post)) xs.length pre.length = xs.map dec := by
  induction xs generalizing pre with
  | nil => rfl
  | cons x xs ih =>
      have hnext : (pre ++ enc x).length = pre.length + size := by
        rw [List.length_append, hsize]
      have ih := ih (pre ++ enc x)
      rw [hnext, List.append_assoc] at ih
      rw [List.flatMap_cons, List.append_assoc, List.length_cons, readRecords, hread, ih,
        List.map_cons]

end Slices

end Mawmaw.Lib
