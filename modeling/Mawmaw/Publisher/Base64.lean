import Mawmaw.Lib.Base64
import Mawmaw.Lib.LittleEndian
import Mawmaw.Publisher.WebSocketFrames

/-!
# The base64 text of a payload

* `toNat_pack₃`, `toNat_pack₂`, `toNat_pack₁` : the word each round packs its bytes into;
* `base64Char_eq` : a character is the digit of six of its bits;
* `base64Encode_shape`, `decode_base64Encode` : the text, and what it decodes to;
* `base64_lossless`.
-/

namespace Mawmaw.Pub
open Mawmaw.Lib Mawmaw.Core

/-! ## Characters -/

theorem base64Table_eq : base64Table = Base64.alphabet := by decide

theorem base64Char_eq (n shift : UInt32) (h : shift.toNat < 32) :
    base64Char n shift = Base64.digit (n.toNat / 2 ^ shift.toNat % 64) := by
  have hbits : ((n >>> shift) &&& 0x3F).toNat = n.toNat / 2 ^ shift.toNat % 64 := by
    have hmask : ∀ v : Nat, v &&& 63 = v % 64 := fun v => Nat.and_two_pow_sub_one_eq_mod v 6
    rw [UInt32.toNat_and, UInt32.toNat_shiftRight, Nat.mod_eq_of_lt h, Nat.shiftRight_eq_div_pow]
    exact hmask _
  rw [base64Char, Base64.digit, base64Table_eq, hbits]

theorem base64Char_18 (n : UInt32) : base64Char n 18 = Base64.digit (n.toNat / 262144 % 64) :=
  base64Char_eq n 18 (by decide)

theorem base64Char_12 (n : UInt32) : base64Char n 12 = Base64.digit (n.toNat / 4096 % 64) :=
  base64Char_eq n 12 (by decide)

theorem base64Char_6 (n : UInt32) : base64Char n 6 = Base64.digit (n.toNat / 64 % 64) :=
  base64Char_eq n 6 (by decide)

theorem base64Char_0 (n : UInt32) : base64Char n 0 = Base64.digit (n.toNat % 64) := by
  rw [base64Char_eq n 0 (by decide)]
  simp

/-! ## Packed words -/

theorem toNat_pack₁ (a : UInt8) : (a.toUInt32 <<< 16).toNat = a.toNat * 65536 := by
  have ha := a.toNat_lt
  rw [UInt32.toNat_shiftLeft, UInt8.toNat_toUInt32]
  simp only [UInt32.reduceToNat, Nat.reduceMod, Nat.shiftLeft_eq, Nat.reducePow]
  omega

theorem toNat_pack₂ (a b : UInt8) :
    ((a.toUInt32 <<< 16) ||| (b.toUInt32 <<< 8)).toNat = a.toNat * 65536 + b.toNat * 256 := by
  have ha := a.toNat_lt
  have hb := b.toNat_lt
  have hlow : (b.toUInt32 <<< 8).toNat = b.toNat * 256 := by
    rw [UInt32.toNat_shiftLeft, UInt8.toNat_toUInt32]
    simp only [UInt32.reduceToNat, Nat.reduceMod, Nat.shiftLeft_eq, Nat.reducePow]
    omega
  have hor := Nat.two_pow_add_eq_or_of_lt (i := 16) (b := b.toNat * 256) (by omega) a.toNat
  rw [UInt32.toNat_or, toNat_pack₁, hlow, Nat.mul_comm a.toNat]
  exact hor.symm

theorem toNat_pack₃ (a b c : UInt8) :
    ((a.toUInt32 <<< 16) ||| (b.toUInt32 <<< 8) ||| c.toUInt32).toNat
      = a.toNat * 65536 + b.toNat * 256 + c.toNat := by
  have hc := c.toNat_lt
  have hor := Nat.two_pow_add_eq_or_of_lt (i := 8) (b := c.toNat) hc (a.toNat * 256 + b.toNat)
  have hhigh : a.toNat * 65536 + b.toNat * 256 = 2 ^ 8 * (a.toNat * 256 + b.toNat) := by omega
  rw [UInt32.toNat_or, toNat_pack₂, UInt8.toNat_toUInt32, hhigh]
  exact hor.symm

/-! ## Rounds -/

theorem base64Encode_three (a b c : UInt8) (rest : List UInt8) :
    base64Encode (a :: b :: c :: rest)
      = Base64.digit (a.toNat / 4) :: Base64.digit (a.toNat % 4 * 16 + b.toNat / 16)
        :: Base64.digit (b.toNat % 16 * 4 + c.toNat / 64) :: Base64.digit (c.toNat % 64)
        :: base64Encode rest := by
  have ha := a.toNat_lt
  have hb := b.toNat_lt
  have hc := c.toNat_lt
  have h₁ : (a.toNat * 65536 + b.toNat * 256 + c.toNat) / 262144 % 64 = a.toNat / 4 := by omega
  have h₂ : (a.toNat * 65536 + b.toNat * 256 + c.toNat) / 4096 % 64
      = a.toNat % 4 * 16 + b.toNat / 16 := by omega
  have h₃ : (a.toNat * 65536 + b.toNat * 256 + c.toNat) / 64 % 64
      = b.toNat % 16 * 4 + c.toNat / 64 := by omega
  have h₄ : (a.toNat * 65536 + b.toNat * 256 + c.toNat) % 64 = c.toNat % 64 := by omega
  simp only [base64Encode, base64Char_18, base64Char_12, base64Char_6, base64Char_0, toNat_pack₃,
    h₁, h₂, h₃, h₄, List.cons_append, List.nil_append]

theorem base64Encode_two (a b : UInt8) :
    base64Encode [a, b]
      = [Base64.digit (a.toNat / 4), Base64.digit (a.toNat % 4 * 16 + b.toNat / 16),
          Base64.digit (b.toNat % 16 * 4), Base64.pad] := by
  have ha := a.toNat_lt
  have hb := b.toNat_lt
  have h₁ : (a.toNat * 65536 + b.toNat * 256) / 262144 % 64 = a.toNat / 4 := by omega
  have h₂ : (a.toNat * 65536 + b.toNat * 256) / 4096 % 64 = a.toNat % 4 * 16 + b.toNat / 16 := by
    omega
  have h₃ : (a.toNat * 65536 + b.toNat * 256) / 64 % 64 = b.toNat % 16 * 4 := by omega
  simp only [base64Encode, base64Char_18, base64Char_12, base64Char_6, toNat_pack₂, h₁, h₂, h₃,
    List.cons_append, List.nil_append]
  rfl

theorem base64Encode_one (a : UInt8) :
    base64Encode [a]
      = [Base64.digit (a.toNat / 4), Base64.digit (a.toNat % 4 * 16), Base64.pad, Base64.pad] := by
  have ha := a.toNat_lt
  have h₁ : a.toNat * 65536 / 262144 % 64 = a.toNat / 4 := by omega
  have h₂ : a.toNat * 65536 / 4096 % 64 = a.toNat % 4 * 16 := by omega
  simp only [base64Encode, base64Char_18, base64Char_12, toNat_pack₁, h₁, h₂, List.cons_append,
    List.nil_append]
  rfl

/-! ## The text -/

theorem ofNat_eq {a : UInt8} {v : Nat} (h : v = a.toNat) : UInt8.ofNat v = a := by
  rw [h]
  exact UInt8.ofNat_toNat

/-- Characters of the alphabet, then the padding `n` bytes ask for. -/
def Padded (n : Nat) (text : Str) : Prop :=
  ∃ body, text = body ++ List.replicate ((3 - n % 3) % 3) Base64.pad ∧ ∀ c ∈ body, c ∈ Base64.alphabet

theorem length_base64Encode (bs : List UInt8) :
    (base64Encode bs).length = 4 * ((bs.length + 2) / 3) := by
  induction bs using base64Encode.induct with
  | case1 a b c rest ih =>
    rw [base64Encode_three]
    simp only [List.length_cons, ih]
    omega
  | case2 a b => simp [base64Encode_two]
  | case3 a => simp [base64Encode_one]
  | case4 => rfl

theorem padded_base64Encode (bs : List UInt8) : Padded bs.length (base64Encode bs) := by
  induction bs using base64Encode.induct with
  | case1 a b c rest ih =>
    have ha := a.toNat_lt
    have hb := b.toNat_lt
    have hc := c.toNat_lt
    obtain ⟨body, hbody, hmem⟩ := ih
    have hn : (a :: b :: c :: rest).length % 3 = rest.length % 3 := by
      simp only [List.length_cons]
      omega
    refine ⟨Base64.digit (a.toNat / 4) :: Base64.digit (a.toNat % 4 * 16 + b.toNat / 16)
      :: Base64.digit (b.toNat % 16 * 4 + c.toNat / 64) :: Base64.digit (c.toNat % 64) :: body,
      ?_, ?_⟩
    · rw [base64Encode_three, hbody, hn]
      rfl
    · simp only [List.forall_mem_cons]
      exact ⟨Base64.digit_mem (by omega), Base64.digit_mem (by omega), Base64.digit_mem (by omega),
        Base64.digit_mem (by omega), hmem⟩
  | case2 a b =>
    have ha := a.toNat_lt
    have hb := b.toNat_lt
    refine ⟨[Base64.digit (a.toNat / 4), Base64.digit (a.toNat % 4 * 16 + b.toNat / 16),
      Base64.digit (b.toNat % 16 * 4)], base64Encode_two a b, ?_⟩
    simp only [List.forall_mem_cons]
    exact ⟨Base64.digit_mem (by omega), Base64.digit_mem (by omega), Base64.digit_mem (by omega),
      List.forall_mem_nil _⟩
  | case3 a =>
    have ha := a.toNat_lt
    refine ⟨[Base64.digit (a.toNat / 4), Base64.digit (a.toNat % 4 * 16)], base64Encode_one a, ?_⟩
    simp only [List.forall_mem_cons]
    exact ⟨Base64.digit_mem (by omega), Base64.digit_mem (by omega), List.forall_mem_nil _⟩
  | case4 => exact ⟨[], rfl, List.forall_mem_nil _⟩

theorem decode_base64Encode (bs : List UInt8) : Base64.decode (base64Encode bs) = some bs := by
  induction bs using base64Encode.induct with
  | case1 a b c rest ih =>
    have ha := a.toNat_lt
    have hb := b.toNat_lt
    have hc := c.toNat_lt
    rw [base64Encode_three, Base64.decode_three (by omega) (by omega) (by omega) (by omega), ih,
      Option.map_some, Base64.bytes₃, ofNat_eq (a := a) (by omega), ofNat_eq (a := b) (by omega),
      ofNat_eq (a := c) (by omega)]
    rfl
  | case2 a b =>
    have ha := a.toNat_lt
    have hb := b.toNat_lt
    rw [base64Encode_two, Base64.decode_two (by omega) (by omega) (by omega) (by omega),
      Base64.bytes₂, ofNat_eq (a := a) (by omega), ofNat_eq (a := b) (by omega)]
  | case3 a =>
    have ha := a.toNat_lt
    rw [base64Encode_one, Base64.decode_one (by omega) (by omega) (by omega), Base64.bytes₁,
      ofNat_eq (a := a) (by omega)]
  | case4 => rfl

/-- Every payload comes back from its text, which is four characters for every three bytes. -/
theorem base64_lossless (bs : List UInt8) :
    (base64Encode bs).length = 4 * ((bs.length + 2) / 3)
      ∧ Padded bs.length (base64Encode bs)
      ∧ Base64.decode (base64Encode bs) = some bs :=
  ⟨length_base64Encode bs, padded_base64Encode bs, decode_base64Encode bs⟩

end Mawmaw.Pub
