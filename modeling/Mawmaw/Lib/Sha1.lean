import Mathlib.Order.Bounds.Basic
import Mawmaw.Lib.LittleEndian

/-!
# SHA-1

The function of RFC 3174, in its own terms: words of 32 bits, a padded message, and a fold of the
compression over the blocks.

* `f`, `k`, `schedule`, `round`, `compress` : sections 5 and 6.1;
* `padZeros`, `pad` : section 4, and `padZeros_isLeast` : no fewer zero bytes would do;
* `blocks`, `digest` : the blocks in order, and the five words of the last state.
-/

namespace Mawmaw.Lib.Sha1

abbrev Word := BitVec 32

/-! ## Bytes -/

/-- The number spelled by a byte list, most significant byte first. -/
def fromBE (bs : List UInt8) : Nat := bs.foldl (fun v b => v * 256 + b.toNat) 0

/-- The `n` low bytes of `v`, most significant first. -/
def toBE : Nat → Nat → List UInt8
  | 0, _ => []
  | n + 1, v => UInt8.ofNat (v / 256 ^ n) :: toBE n v

@[simp] theorem length_toBE (n v : Nat) : (toBE n v).length = n := by
  induction n with
  | zero => rfl
  | succ n ih => rw [toBE, List.length_cons, ih]

/-! ## Compression -/

/-- The five words `A`, `B`, `C`, `D` and `E`. -/
@[ext] structure State where
  a : Word
  b : Word
  c : Word
  d : Word
  e : Word
  deriving DecidableEq, Repr

def init : State := ⟨0x67452301, 0xEFCDAB89, 0x98BADCFE, 0x10325476, 0xC3D2E1F0⟩

def f (t : Nat) (b c d : Word) : Word :=
  if t < 20 then (b &&& c) ||| (~~~b &&& d)
  else if t < 40 then b ^^^ c ^^^ d
  else if t < 60 then (b &&& c) ||| (b &&& d) ||| (c &&& d)
  else b ^^^ c ^^^ d

def k (t : Nat) : Word :=
  if t < 20 then 0x5A827999 else if t < 40 then 0x6ED9EBA1
  else if t < 60 then 0x8F1BBCDC else 0xCA62C1D6

/-- `W(t)` of a block. -/
def schedule (block : List UInt8) (t : Nat) : Word :=
  if t < 16 then BitVec.ofNat 32 (fromBE (slice block (4 * t) 4))
  else (schedule block (t - 3) ^^^ schedule block (t - 8) ^^^ schedule block (t - 14)
    ^^^ schedule block (t - 16)).rotateLeft 1
termination_by t

def round (t : Nat) (w : Word) (s : State) : State where
  a := s.a.rotateLeft 5 + f t s.b s.c s.d + s.e + w + k t
  b := s.a
  c := s.b.rotateLeft 30
  d := s.c
  e := s.d

/-- The first `n` rounds. -/
def rounds (block : List UInt8) (s : State) : Nat → State
  | 0 => s
  | n + 1 => round n (schedule block n) (rounds block s n)

def compress (h : State) (block : List UInt8) : State :=
  let s := rounds block h 80
  ⟨h.a + s.a, h.b + s.b, h.c + s.c, h.d + s.d, h.e + s.e⟩

/-! ## Padding -/

/-- The zero bytes after a message of `n` bytes and the byte `0x80`. -/
def padZeros (n : Nat) : Nat := (119 - n % 64) % 64

theorem padZeros_isLeast (n : Nat) : IsLeast {z | (n + 1 + z) % 64 = 56} (padZeros n) := by
  unfold padZeros
  constructor
  · show (n + 1 + (119 - n % 64) % 64) % 64 = 56
    omega
  · intro z hz
    have hz : (n + 1 + z) % 64 = 56 := hz
    omega

/-- The length in bits is in the last eight bytes. -/
def pad (msg : List UInt8) : List UInt8 :=
  msg ++ 0x80 :: List.replicate (padZeros msg.length) 0 ++ toBE 8 (8 * msg.length)

theorem length_pad_mod (msg : List UInt8) : (pad msg).length % 64 = 0 := by
  have hz : (msg.length + 1 + padZeros msg.length) % 64 = 56 := (padZeros_isLeast msg.length).1
  unfold pad
  rw [List.length_append, List.length_append, List.length_cons, List.length_replicate,
    length_toBE]
  omega

/-! ## The digest -/

def blocks (bs : List UInt8) : List (List UInt8) :=
  (List.range (bs.length / 64)).map fun i => slice bs (64 * i) 64

/-- A block and the rest. -/
theorem blocks_append {block rest : List UInt8} (h : block.length = 64) :
    blocks (block ++ rest) = block :: blocks rest := by
  have hcount : (block ++ rest).length / 64 = rest.length / 64 + 1 := by
    rw [List.length_append, h]
    omega
  have hfirst : slice (block ++ rest) (64 * 0) 64 = block := by
    rw [slice, Nat.mul_zero, List.drop_zero, ← h, List.take_left]
  have hrest : ∀ i, slice (block ++ rest) (64 * (i + 1)) 64 = slice rest (64 * i) 64 := by
    intro i
    rw [Nat.mul_succ, Nat.add_comm, ← h, slice_append_right]
  rw [blocks, hcount, List.range_succ_eq_map, List.map_cons, hfirst, List.map_map]
  refine congrArg (block :: ·) (List.map_congr_left fun i _ => ?_)
  exact hrest i

def digest (msg : List UInt8) : List UInt8 :=
  let s := (blocks (pad msg)).foldl compress init
  toBE 4 s.a.toNat ++ toBE 4 s.b.toNat ++ toBE 4 s.c.toNat ++ toBE 4 s.d.toNat ++ toBE 4 s.e.toNat

end Mawmaw.Lib.Sha1
