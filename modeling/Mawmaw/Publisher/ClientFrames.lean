import Mawmaw.Lib.LittleEndian
import Mawmaw.Publisher.WebSocketFrames

/-!
# The frames of a client

* `ClientFrame`, `ClientFrame.encode` : a frame and its bytes, the length in any form that holds it;
* `readHeader_encode` : the header of a frame, with the frame's payload next;
* `unmask_body` : the payload, unmasked;
* `wsFrame_eq_encode` : what `ws_send_frame` sends is a frame that is not masked.
-/

namespace Mawmaw.Pub
open Mawmaw.Lib

/-! ## Frames -/

/-- The length: in the second byte, or in the two or eight bytes after it. -/
inductive LengthForm
  | short
  | medium
  | long
  deriving DecidableEq, Repr

namespace LengthForm

def max : LengthForm → Nat
  | .short => 125
  | .medium => 65535
  | .long => 2 ^ 63 - 1

/-- The low bits of the second byte. -/
def code (len : Nat) : LengthForm → UInt8
  | .short => UInt8.ofNat len
  | .medium => 126
  | .long => 127

/-- The bytes after the second one, most significant first. -/
def ext (len : Nat) : LengthForm → List UInt8
  | .short => []
  | .medium => (toLE 2 len).reverse
  | .long => (toLE 8 len).reverse

/-- The form with the fewest bytes. -/
def least (len : Nat) : LengthForm :=
  if len ≤ 125 then .short else if len ≤ 65535 then .medium else .long

theorem max_lt (form : LengthForm) : form.max < 2 ^ 63 := by
  cases form <;> decide

theorem le_max_least {len : Nat} (h : len < 2 ^ 63) : len ≤ (least len).max := by
  unfold least
  split
  · assumption
  · split
    · assumption
    · exact Nat.le_sub_one_of_lt h

end LengthForm

/-- `first` has the final flag, the reserved bits and the opcode; `payload` is not masked. -/
structure ClientFrame where
  first : UInt8
  key : Option (Vector UInt8 4)
  form : LengthForm
  payload : List UInt8
  holds : payload.length ≤ form.max

namespace ClientFrame

def opcode (f : ClientFrame) : UInt8 := f.first &&& 0x0F

/-- The header that the handler has of the frame. -/
def header (f : ClientFrame) : FrameHeader :=
  ⟨f.opcode, UInt64.ofNat f.payload.length, f.key.map Vector.toList⟩

/-- The second byte. -/
def second (f : ClientFrame) : UInt8 :=
  (if f.key.isSome then 0x80 else 0) ||| f.form.code f.payload.length

/-- The payload as it is sent. -/
def body (f : ClientFrame) : List UInt8 :=
  match f.key with
  | none => f.payload
  | some key => f.payload.mapIdx fun i b => b ^^^ key.get ⟨i % 4, Nat.mod_lt i (by decide)⟩

def encode (f : ClientFrame) : List UInt8 :=
  f.first :: f.second :: (f.form.ext f.payload.length ++ (f.header.key.getD [] ++ f.body))

theorem payload_lt (f : ClientFrame) : f.payload.length < 2 ^ 63 :=
  lt_of_le_of_lt f.holds f.form.max_lt

theorem header_len (f : ClientFrame) : f.header.len.toNat = f.payload.length := by
  have h := f.payload_lt
  rw [show f.header.len = UInt64.ofNat f.payload.length from rfl, UInt64.toNat_ofNat']
  omega

end ClientFrame

/-! ## Masks -/

theorem FrameHeader.length_unmask (h : FrameHeader) (payload : List UInt8) :
    (h.unmask payload).length = payload.length := by
  unfold FrameHeader.unmask
  split
  · rfl
  · exact List.length_mapIdx

/-- A mask put on twice is taken off. -/
theorem FrameHeader.unmask_unmask (h : FrameHeader) (payload : List UInt8) :
    h.unmask (h.unmask payload) = payload := by
  unfold FrameHeader.unmask
  split
  · rfl
  · apply List.ext_getElem
    · rw [List.length_mapIdx, List.length_mapIdx]
    · intro i hi hi'
      rw [List.getElem_mapIdx, List.getElem_mapIdx, UInt8.xor_assoc, UInt8.xor_self,
        UInt8.xor_zero]

namespace ClientFrame

/-- To mask a payload is to take the mask off it. -/
theorem body_eq (f : ClientFrame) : f.body = f.header.unmask f.payload := by
  unfold body header FrameHeader.unmask
  cases f.key with
  | none => rfl
  | some key =>
      apply List.ext_getElem
      · simp
      · intro i hi hi'
        have hlt : i % 4 < 4 := Nat.mod_lt i (by decide)
        simp [Vector.get, hlt]

theorem length_body (f : ClientFrame) : f.body.length = f.payload.length := by
  rw [f.body_eq, f.header.length_unmask]

theorem unmask_body (f : ClientFrame) : f.header.unmask f.body = f.payload := by
  rw [f.body_eq, f.header.unmask_unmask]

end ClientFrame

/-! ## Lengths -/

theorem bigEndian_reverse (bs : List UInt8) : bigEndian bs.reverse = shiftIn bs := by
  unfold bigEndian shiftIn
  rw [List.foldl_reverse]

theorem bigEndian_toLE {k v : Nat} (hk : k ≤ 8) (hv : v < 256 ^ k) :
    bigEndian (toLE k v).reverse = UInt64.ofNat v := by
  have hpow : 256 ^ k ≤ 256 ^ 8 := Nat.pow_le_pow_right (by decide) hk
  apply UInt64.toNat.inj
  rw [bigEndian_reverse, shiftIn_toNat _ (by rwa [length_toLE]), fromLE_toLE,
    Nat.mod_eq_of_lt hv, UInt64.toNat_ofNat']
  omega

namespace LengthForm
variable {form : LengthForm} {len : Nat}

theorem code_lt (h : len ≤ form.max) : (form.code len).toNat < 128 := by
  cases form with
  | short =>
      have hlen : len ≤ 125 := h
      rw [show (short.code len).toNat = len % 2 ^ 8 from UInt8.toNat_ofNat']
      omega
  | medium => exact (show (126 : UInt8).toNat < 128 by decide)
  | long => exact (show (127 : UInt8).toNat < 128 by decide)

/-- The second byte splits into the mask flag and the length. -/
theorem code_bits {code : UInt8} (masked : Bool) (h : code.toNat < 128) :
    ((if masked then 0x80 else 0) ||| code) &&& 0x7F = code ∧
      ((((if masked then 0x80 else 0) ||| code) &&& 0x80) != 0) = masked := by
  have hall : ∀ (masked : Bool) (c : Fin 128),
      ((if masked then 0x80 else 0) ||| UInt8.ofNat c.val) &&& 0x7F = UInt8.ofNat c.val ∧
        ((((if masked then 0x80 else 0) ||| UInt8.ofNat c.val) &&& 0x80) != 0) = masked := by
    decide +kernel
  have hcode := hall masked ⟨code.toNat, h⟩
  rwa [UInt8.ofNat_toNat] at hcode

end LengthForm

/-! ## Reading -/

section
variable {eof : Bool} {a rest : List UInt8}

theorem readExact_append {n : Nat} (h : a.length = n) :
    readExact eof (a ++ rest) n = .ok a rest := by
  subst h
  rw [readExact, if_pos (by simp), List.take_left, List.drop_left]

theorem readLength_ext {form : LengthForm} {len : Nat} (h : len ≤ form.max) :
    readLength eof (form.code len) (form.ext len ++ rest) = .ok (UInt64.ofNat len) rest := by
  cases form with
  | short =>
      have hlen : len ≤ 125 := h
      have hcode : (UInt8.ofNat len).toNat = len := by
        rw [UInt8.toNat_ofNat']
        omega
      have hne : ∀ b : UInt8, 125 < b.toNat → UInt8.ofNat len ≠ b := by
        rintro b hb rfl
        omega
      have h6 := hne 126 (by decide)
      have h7 := hne 127 (by decide)
      have hwide : (UInt8.ofNat len).toUInt64 = UInt64.ofNat len := by
        apply UInt64.toNat.inj
        rw [UInt8.toNat_toUInt64, hcode, UInt64.toNat_ofNat']
        omega
      simp only [readLength, LengthForm.code, LengthForm.ext, if_neg h6, if_neg h7,
        List.nil_append, hwide]
  | medium =>
      have hlen : len < 256 ^ 2 := Nat.lt_of_le_of_lt h (by decide)
      simp only [readLength, LengthForm.code, LengthForm.ext, if_pos]
      rw [readExact_append (by rw [List.length_reverse, length_toLE]), ReadResult.andThen,
        bigEndian_toLE (by decide) hlen]
  | long =>
      have hlen : len < 256 ^ 8 := Nat.lt_of_le_of_lt h (by decide)
      have h6 : (127 : UInt8) ≠ 126 := by decide
      simp only [readLength, LengthForm.code, LengthForm.ext, if_neg h6, if_pos]
      rw [readExact_append (by rw [List.length_reverse, length_toLE]), ReadResult.andThen,
        bigEndian_toLE (by decide) hlen]

theorem readKey_key (key : Option (Vector UInt8 4)) :
    readKey eof key.isSome ((key.map Vector.toList).getD [] ++ rest)
      = .ok (key.map Vector.toList) rest := by
  cases key with
  | none => rfl
  | some key =>
      have hlen : key.toList.length = 4 := Vector.length_toList
      simp only [readKey, Option.isSome_some, if_pos, Option.map_some, Option.getD_some]
      rw [readExact_append hlen, ReadResult.andThen]

end

/-- The header takes exactly its bytes of the frame. -/
theorem readHeader_encode (eof : Bool) (f : ClientFrame) (rest : List UInt8) :
    readHeader eof (f.encode ++ rest) = .ok f.header (f.body ++ rest) := by
  obtain ⟨hlow, hmask⟩ := LengthForm.code_bits f.key.isSome (LengthForm.code_lt f.holds)
  have hlow : f.second &&& 0x7F = f.form.code f.payload.length := hlow
  have hmask : ((f.second &&& 0x80) != 0) = f.key.isSome := hmask
  have htwo : readExact eof (f.encode ++ rest) 2 = .ok [f.first, f.second]
      (f.form.ext f.payload.length ++ (f.header.key.getD [] ++ (f.body ++ rest))) := by
    rw [← List.append_assoc (f.header.key.getD []), ← List.append_assoc]
    exact (readExact_append rfl : readExact eof ([f.first, f.second] ++ _) 2 = _)
  have hkey : readKey eof f.key.isSome (f.header.key.getD [] ++ (f.body ++ rest))
      = .ok f.header.key (f.body ++ rest) := readKey_key f.key
  simp only [readHeader, htwo, ReadResult.andThen, List.getD_cons_zero, List.getD_cons_succ, hlow,
    hmask]
  rw [readLength_ext f.holds]
  simp only [hkey]
  rfl

/-! ## The server's own frames -/

theorem wsLength_eq (len : Nat) :
    wsLength len = (LengthForm.least len).code len :: (LengthForm.least len).ext len := by
  unfold wsLength LengthForm.least
  split
  · rfl
  · split
    · simp only [LengthForm.code, LengthForm.ext, toLE, Nat.shiftRight_eq_div_pow]
      rfl
    · simp [LengthForm.code, LengthForm.ext, toLE, Nat.shiftRight_eq_div_pow,
        Nat.div_div_eq_div_mul]

/-- A frame of the server, as a client reads it. -/
def serverFrame (opcode : UInt8) (payload : List UInt8) (h : payload.length < 2 ^ 63) :
    ClientFrame :=
  ⟨0x80 ||| (opcode &&& 0x0F), none, .least payload.length, payload, LengthForm.le_max_least h⟩

theorem wsFrame_eq_encode {opcode : UInt8} {payload : List UInt8} (h : payload.length < 2 ^ 63) :
    wsFrame opcode payload = (serverFrame opcode payload h).encode := by
  have hsecond : (serverFrame opcode payload h).second
      = (LengthForm.least payload.length).code payload.length := UInt8.zero_or
  unfold wsFrame ClientFrame.encode
  rw [wsLength_eq, hsecond]
  rfl

theorem serverFrame_opcode {opcode : UInt8} {payload : List UInt8} (h : payload.length < 2 ^ 63)
    (hop : opcode < 16) : (serverFrame opcode payload h).opcode = opcode := by
  have hall : ∀ n : Fin 16,
      (0x80 ||| (UInt8.ofNat n.val &&& 0x0F)) &&& 0x0F = UInt8.ofNat n.val := by decide
  have hlow := hall ⟨opcode.toNat, hop⟩
  rwa [UInt8.ofNat_toNat] at hlow

end Mawmaw.Pub
