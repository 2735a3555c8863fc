import Mawmaw.Lib.Sha1
import Mawmaw.Publisher.Base64

/-!
# The SHA-1 of the handshake

* `Sha1`, `processBlock`, `digest` : the source's loops over 32-bit words and over the padded buffer;
* `wsAcceptKey` : what the handshake answers a key with;
* `getD_fillSchedule`, `toState_roundLoop` : what the loops of `process_block` have done after `n`
  rounds;
* `padLoop_eq`, `processFrom_eq` : the two loops of `digest`;
* `sha1_digest_eq`.
-/

namespace Mawmaw.Pub
open Mawmaw.Lib

/-! ## The code -/

/-- `h[5]`, from the standard initial state. -/
structure Sha1 where
  h : Vector UInt32 5 := #v[0x67452301, 0xEFCDAB89, 0x98BADCFE, 0x10325476, 0xC3D2E1F0]

namespace Sha1

def rol (v : UInt32) (b : Nat) : UInt32 := (v <<< UInt32.ofNat b) ||| (v >>> UInt32.ofNat (32 - b))

/-- The four bytes at `p[i * 4]`, as a word. -/
def blockWord (p : List UInt8) (i : Nat) : UInt32 :=
  ((p.getD (i * 4) 0).toUInt32 <<< 24) ||| ((p.getD (i * 4 + 1) 0).toUInt32 <<< 16)
    ||| ((p.getD (i * 4 + 2) 0).toUInt32 <<< 8) ||| (p.getD (i * 4 + 3) 0).toUInt32

/-- `for (i = 0; i < 16; ++i)`, `n` rounds of it. -/
def loadWords (p : List UInt8) (n : Nat) (w : List UInt32) : List UInt32 :=
  (List.range n).foldl (fun w i => w.set i (blockWord p i)) w

def scheduleStep (w : List UInt32) (i : Nat) : List UInt32 :=
  w.set i
    (rol (w.getD (i - 3) 0 ^^^ w.getD (i - 8) 0 ^^^ w.getD (i - 14) 0 ^^^ w.getD (i - 16) 0) 1)

/-- `for (i = 16; i < 80; ++i)`, `n` rounds of it. -/
def fillSchedule (n : Nat) (w : List UInt32) : List UInt32 :=
  (List.range' 16 n).foldl scheduleStep w

/-- The array `w[80]`. -/
def schedule (p : List UInt8) : List UInt32 :=
  fillSchedule 64 (loadWords p 16 (List.replicate 80 0))

/-- The locals `a`, `b`, `c`, `d`, `e`. -/
structure Regs where
  a : UInt32
  b : UInt32
  c : UInt32
  d : UInt32
  e : UInt32

/-- The `f` and `k` of round `i`. -/
def roundFk (i : Nat) (r : Regs) : UInt32 × UInt32 :=
  if i < 20 then ((r.b &&& r.c) ||| (~~~r.b &&& r.d), 0x5A827999)
  else if i < 40 then (r.b ^^^ r.c ^^^ r.d, 0x6ED9EBA1)
  else if i < 60 then ((r.b &&& r.c) ||| (r.b &&& r.d) ||| (r.c &&& r.d), 0x8F1BBCDC)
  else (r.b ^^^ r.c ^^^ r.d, 0xCA62C1D6)

def roundStep (w : List UInt32) (r : Regs) (i : Nat) : Regs :=
  let fk := roundFk i r
  let tmp := rol r.a 5 + fk.1 + r.e + fk.2 + w.getD i 0
  { a := tmp, b := r.a, c := rol r.b 30, d := r.c, e := r.d }

/-- `for (i = 0; i < 80; ++i)`, `n` rounds of it. -/
def roundLoop (w : List UInt32) (n : Nat) (r : Regs) : Regs := (List.range n).foldl (roundStep w) r

def processBlock (ctx : Sha1) (p : List UInt8) : Sha1 :=
  let w := schedule p
  let r := roundLoop w 80 ⟨ctx.h[0], ctx.h[1], ctx.h[2], ctx.h[3], ctx.h[4]⟩
  { h := #v[ctx.h[0] + r.a, ctx.h[1] + r.b, ctx.h[2] + r.c, ctx.h[3] + r.d, ctx.h[4] + r.e] }

/-- `while (buf.size() % 64 != 56) buf.push_back(0)`. -/
def padLoop (buf : List UInt8) : List UInt8 :=
  if buf.length % 64 = 56 then buf else padLoop (buf ++ [0])
termination_by (120 - buf.length % 64) % 64
decreasing_by
  rw [List.length_append, List.length_singleton]
  omega

/-- `for (off = 0; off < buf.size(); off += 64)`, with `rest` from `&buf[off]` on. -/
def processFrom (ctx : Sha1) (rest : List UInt8) : Sha1 :=
  if rest.length = 0 then ctx else processFrom (ctx.processBlock rest) (rest.drop 64)
termination_by rest.length
decreasing_by
  rw [List.length_drop]
  omega

/-- `uint8_t(v >> 24)` and so on, of a word `v`. -/
def wordBytes (v : UInt32) : List UInt8 :=
  [(v >>> 24).toUInt8, (v >>> 16).toUInt8, (v >>> 8).toUInt8, v.toUInt8]

def digest (msg : List UInt8) : List UInt8 :=
  let bitlen : UInt64 := UInt64.ofNat msg.length * 8
  let buf := padLoop (msg ++ [0x80])
  let buf := buf ++ [7, 6, 5, 4, 3, 2, 1, 0].map fun i => (bitlen >>> UInt64.ofNat (i * 8)).toUInt8
  let ctx := processFrom {} buf
  ctx.h.toList.flatMap wordBytes

end Sha1

def wsGuid : Str := lit "258EAFA5-E914-47DA-95CA-C5AB0DC85B11"

/-- `Sec-WebSocket-Accept` from `Sec-WebSocket-Key`. -/
def wsAcceptKey (clientKey : Str) : Str := base64Encode (Sha1.digest (clientKey ++ wsGuid))

/-! ## Words -/

namespace Sha1

theorem toBitVec_rol_1 (v : UInt32) : (rol v 1).toBitVec = v.toBitVec.rotateLeft 1 := rfl

theorem toBitVec_rol_5 (v : UInt32) : (rol v 5).toBitVec = v.toBitVec.rotateLeft 5 := rfl

theorem toBitVec_rol_30 (v : UInt32) : (rol v 30).toBitVec = v.toBitVec.rotateLeft 30 := rfl

theorem toNat_pack₄ (a b c d : UInt8) :
    ((a.toUInt32 <<< 24) ||| (b.toUInt32 <<< 16) ||| (c.toUInt32 <<< 8) ||| d.toUInt32).toNat
      = Sha1.fromBE [a, b, c, d] := by
  have ha := a.toNat_lt
  have hb := b.toNat_lt
  have hc := c.toNat_lt
  have hd := d.toNat_lt
  have hhigh : (a.toUInt32 <<< 24).toNat = 2 ^ 24 * a.toNat := by
    rw [UInt32.toNat_shiftLeft, UInt8.toNat_toUInt32]
    simp only [UInt32.reduceToNat, Nat.reduceMod, Nat.shiftLeft_eq, Nat.reducePow]
    omega
  have hlow : ((b.toUInt32 <<< 16) ||| (c.toUInt32 <<< 8) ||| d.toUInt32).toNat
      = b.toNat * 65536 + c.toNat * 256 + d.toNat := toNat_pack₃ b c d
  have hor := Nat.two_pow_add_eq_or_of_lt (i := 24)
    (b := b.toNat * 65536 + c.toNat * 256 + d.toNat) (by omega) a.toNat
  rw [UInt32.or_assoc, UInt32.or_assoc, ← UInt32.or_assoc (b.toUInt32 <<< 16), UInt32.toNat_or,
    hhigh, hlow, ← hor]
  simp only [Sha1.fromBE, List.foldl_cons, List.foldl_nil]
  omega

theorem slice_four {p : List UInt8} {off : Nat} (h : off + 4 ≤ p.length) :
    slice p off 4
      = [p.getD off 0, p.getD (off + 1) 0, p.getD (off + 2) 0, p.getD (off + 3) 0] := by
  have hget : ∀ j, p.getD (off + j) 0 = (p.drop off).getD j 0 := by
    intro j
    rw [List.getD_eq_getElem?_getD, List.getD_eq_getElem?_getD, List.getElem?_drop]
  have hlen : 4 ≤ (p.drop off).length := by
    rw [List.length_drop]
    omega
  have hfirst : p.getD off 0 = (p.drop off).getD 0 0 := hget 0
  rw [slice, hfirst, hget 1, hget 2, hget 3]
  generalize p.drop off = q at hlen ⊢
  rcases q with _ | ⟨a, _ | ⟨b, _ | ⟨c, _ | ⟨d, q⟩⟩⟩⟩
  · simp at hlen
  · simp at hlen
  · simp at hlen
  · simp at hlen
  · rfl

/-- The word of a block, whatever follows the block. -/
theorem toBitVec_blockWord {block : List UInt8} (hblock : block.length = 64) (post : List UInt8)
    {t : Nat} (ht : t < 16) :
    (blockWord (block ++ post) t).toBitVec = Lib.Sha1.schedule block t := by
  have hslice : slice block (4 * t) 4 = slice (block ++ post) (4 * t) 4 := by
    rw [slice, slice, List.drop_append_of_le_length (by omega), List.take_append_of_le_length]
    rw [List.length_drop]
    omega
  have hlen : 4 * t + 4 ≤ (block ++ post).length := by
    rw [List.length_append]
    omega
  have hfour := slice_four hlen
  rw [Lib.Sha1.schedule, if_pos ht, hslice, hfour]
  apply BitVec.eq_of_toNat_eq
  rw [UInt32.toNat_toBitVec, blockWord, Nat.mul_comm t 4, toNat_pack₄, BitVec.toNat_ofNat]
  rw [Nat.mod_eq_of_lt]
  rw [← toNat_pack₄]
  exact UInt32.toNat_lt _

/-! ## The schedule -/

theorem getD_set {w : List UInt32} {i : Nat} (hi : i < w.length) (v : UInt32) (j : Nat) :
    (w.set i v).getD j 0 = if i = j then v else w.getD j 0 := by
  rw [List.getD_eq_getElem?_getD, List.getD_eq_getElem?_getD, List.getElem?_set]
  by_cases hij : i = j
  · rw [if_pos hij, if_pos hij, if_pos hi, Option.getD_some]
  · rw [if_neg hij, if_neg hij]

/-- The first `n` words of a schedule are in place. -/
structure Filled (block : List UInt8) (n : Nat) (w : List UInt32) : Prop where
  length : w.length = 80
  words : ∀ t < n, (w.getD t 0).toBitVec = Lib.Sha1.schedule block t

/-- The store of the next word. -/
theorem Filled.set {block : List UInt8} {n : Nat} {w : List UInt32} (h : Filled block n w)
    (hn : n < 80) {v : UInt32} (hv : v.toBitVec = Lib.Sha1.schedule block n) :
    Filled block (n + 1) (w.set n v) where
  length := by rw [List.length_set, h.length]
  words t ht := by
    rw [getD_set (by rw [h.length]; exact hn)]
    by_cases htn : n = t
    · rw [if_pos htn, hv, htn]
    · rw [if_neg htn]
      exact h.words t (by omega)

theorem Filled.step {block : List UInt8} {i : Nat} {w : List UInt32} (h : Filled block i w)
    (hlow : 16 ≤ i) (hi : i < 80) : Filled block (i + 1) (scheduleStep w i) := by
  refine h.set hi ?_
  rw [Lib.Sha1.schedule, if_neg (by omega), toBitVec_rol_1, UInt32.toBitVec_xor,
    UInt32.toBitVec_xor, UInt32.toBitVec_xor, h.words _ (by omega), h.words _ (by omega),
    h.words _ (by omega), h.words _ (by omega)]

section
variable {block : List UInt8} (hblock : block.length = 64) (post : List UInt8)
include hblock

theorem filled_loadWords {n : Nat} (hn : n ≤ 16) :
    Filled block n (loadWords (block ++ post) n (List.replicate 80 0)) := by
  induction n with
  | zero => exact ⟨List.length_replicate, fun t ht => absurd ht (Nat.not_lt_zero t)⟩
  | succ n ih =>
      rw [loadWords, List.range_succ, List.foldl_append]
      exact (ih (by omega)).set (by omega) (toBitVec_blockWord hblock post (by omega))

theorem filled_fillSchedule {n : Nat} (hn : n ≤ 64) :
    Filled block (16 + n)
      (fillSchedule n (loadWords (block ++ post) 16 (List.replicate 80 0))) := by
  induction n with
  | zero =>
      rw [fillSchedule, List.range'_zero, List.foldl_nil]
      exact filled_loadWords hblock post (le_refl 16)
  | succ n ih =>
      rw [fillSchedule, List.range'_concat, List.foldl_append, Nat.one_mul]
      exact (ih (by omega)).step (by omega) (by omega)

theorem filled_schedule : Filled block 80 (schedule (block ++ post)) :=
  filled_fillSchedule hblock post (le_refl 64)

end

/-! ## The rounds -/

def Regs.toState (r : Regs) : Lib.Sha1.State :=
  ⟨r.a.toBitVec, r.b.toBitVec, r.c.toBitVec, r.d.toBitVec, r.e.toBitVec⟩

theorem toBitVec_roundFk (i : Nat) (r : Regs) :
    (roundFk i r).1.toBitVec = Lib.Sha1.f i r.b.toBitVec r.c.toBitVec r.d.toBitVec
      ∧ (roundFk i r).2.toBitVec = Lib.Sha1.k i := by
  unfold roundFk Lib.Sha1.f Lib.Sha1.k
  split
  · exact ⟨rfl, rfl⟩
  · split
    · exact ⟨rfl, rfl⟩
    · split <;> exact ⟨rfl, rfl⟩

theorem toState_roundStep (w : List UInt32) (r : Regs) (i : Nat) :
    (roundStep w r i).toState = Lib.Sha1.round i (w.getD i 0).toBitVec r.toState := by
  obtain ⟨hf, hk⟩ := toBitVec_roundFk i r
  ext1
  · change (rol r.a 5 + (roundFk i r).1 + r.e + (roundFk i r).2 + w.getD i 0).toBitVec = _
    rw [UInt32.toBitVec_add, UInt32.toBitVec_add, UInt32.toBitVec_add, UInt32.toBitVec_add, hf, hk,
      toBitVec_rol_5, BitVec.add_assoc _ (Lib.Sha1.k i), BitVec.add_comm (Lib.Sha1.k i),
      ← BitVec.add_assoc]
    rfl
  · rfl
  · exact toBitVec_rol_30 r.b
  · rfl
  · rfl

theorem toState_roundLoop {block : List UInt8} {w : List UInt32} (hw : Filled block 80 w) (r : Regs)
    {n : Nat} (hn : n ≤ 80) :
    (roundLoop w n r).toState = Lib.Sha1.rounds block r.toState n := by
  induction n with
  | zero => rfl
  | succ n ih =>
      rw [roundLoop, List.range_succ, List.foldl_append, Lib.Sha1.rounds, ← ih (by omega),
        ← hw.words n (by omega)]
      exact toState_roundStep w _ n

/-! ## The blocks -/

def toState (ctx : Sha1) : Lib.Sha1.State :=
  ⟨ctx.h[0].toBitVec, ctx.h[1].toBitVec, ctx.h[2].toBitVec, ctx.h[3].toBitVec, ctx.h[4].toBitVec⟩

theorem toState_processBlock (ctx : Sha1) {block : List UInt8} (hblock : block.length = 64)
    (post : List UInt8) :
    (ctx.processBlock (block ++ post)).toState = Lib.Sha1.compress ctx.toState block := by
  have hrounds := toState_roundLoop (filled_schedule hblock post)
    ⟨ctx.h[0], ctx.h[1], ctx.h[2], ctx.h[3], ctx.h[4]⟩ (le_refl 80)
  change _ = Lib.Sha1.rounds block ctx.toState 80 at hrounds
  rw [Lib.Sha1.compress, ← hrounds]
  rfl

/-- The loop takes the blocks of the buffer in order, and all of it. -/
theorem toState_processFrom (bs : List UInt8) : ∀ (ctx : Sha1), bs.length % 64 = 0 →
    (processFrom ctx bs).toState = (Lib.Sha1.blocks bs).foldl Lib.Sha1.compress ctx.toState := by
  induction hn : bs.length / 64 generalizing bs with
  | zero =>
      intro ctx hmod
      have hnil : bs.length = 0 := by omega
      rw [processFrom, if_pos hnil, Lib.Sha1.blocks, hn]
      rfl
  | succ n ih =>
      intro ctx hmod
      have hlen : (bs.take 64).length = 64 := by
        rw [List.length_take]
        omega
      have hsplit := List.take_append_drop 64 bs
      have hrest : (bs.drop 64).length = bs.length - 64 := List.length_drop
      have hblock := toState_processBlock ctx hlen (bs.drop 64)
      rw [hsplit] at hblock
      rw [processFrom, if_neg (by omega), ih _ (by omega) _ (by omega), hblock, ← List.foldl_cons,
        ← Lib.Sha1.blocks_append hlen, hsplit]

/-! ## The padding -/

theorem padLoop_eq (buf : List UInt8) :
    padLoop buf = buf ++ List.replicate ((120 - buf.length % 64) % 64) 0 := by
  induction buf using padLoop.induct with
  | case1 buf h =>
      rw [padLoop, if_pos h, h]
      simp
  | case2 buf h ih =>
      have hzeros : (120 - buf.length % 64) % 64 = (120 - (buf ++ [0]).length % 64) % 64 + 1 := by
        rw [List.length_append, List.length_singleton]
        omega
      rw [padLoop, if_neg h, ih, hzeros, List.replicate_succ, List.append_assoc]
      rfl

theorem toBE_eq_map (n v : Nat) :
    Lib.Sha1.toBE n v = (List.range n).reverse.map fun i => UInt8.ofNat (v / 256 ^ i) := by
  induction n with
  | zero => rfl
  | succ n ih =>
      rw [Lib.Sha1.toBE, ih, List.range_succ, List.reverse_append, List.reverse_singleton,
        List.singleton_append, List.map_cons]

theorem lengthBytes_eq (v : UInt64) :
    ([7, 6, 5, 4, 3, 2, 1, 0].map fun i => (v >>> UInt64.ofNat (i * 8)).toUInt8)
      = Lib.Sha1.toBE 8 v.toNat := by
  rw [toBE_eq_map]
  refine List.map_congr_left fun i hi => ?_
  have hi8 : i < 8 := by
    simp only [List.mem_cons, List.not_mem_nil, or_false] at hi
    omega
  have hpow : 2 ^ (i * 8) = 256 ^ i := by rw [Nat.mul_comm, Nat.pow_mul]
  apply UInt8.toNat.inj
  rw [UInt64.toNat_toUInt8, UInt64.toNat_shiftRight, UInt64.toNat_ofNat',
    Nat.mod_eq_of_lt (show i * 8 < 2 ^ 64 by omega), Nat.mod_eq_of_lt (show i * 8 < 64 by omega),
    Nat.shiftRight_eq_div_pow, hpow, UInt8.toNat_ofNat']

theorem wordBytes_eq (v : UInt32) : wordBytes v = Lib.Sha1.toBE 4 v.toBitVec.toNat := by
  have hbyte : ∀ s : UInt32, s.toNat < 32 → (v >>> s).toUInt8 = UInt8.ofNat (v.toNat / 2 ^ s.toNat) := by
    intro s hs
    apply UInt8.toNat.inj
    rw [UInt32.toNat_toUInt8, UInt32.toNat_shiftRight, Nat.mod_eq_of_lt hs,
      Nat.shiftRight_eq_div_pow, UInt8.toNat_ofNat']
  have hlast : v.toUInt8 = UInt8.ofNat v.toNat := by
    apply UInt8.toNat.inj
    rw [UInt32.toNat_toUInt8, UInt8.toNat_ofNat']
  rw [wordBytes, hbyte 24 (by decide), hbyte 16 (by decide), hbyte 8 (by decide), hlast]
  simp [Lib.Sha1.toBE]

/-! ## The digest -/

theorem flatMap_wordBytes (ctx : Sha1) :
    ctx.h.toList.flatMap wordBytes
      = Lib.Sha1.toBE 4 ctx.toState.a.toNat ++ Lib.Sha1.toBE 4 ctx.toState.b.toNat
        ++ Lib.Sha1.toBE 4 ctx.toState.c.toNat ++ Lib.Sha1.toBE 4 ctx.toState.d.toNat
        ++ Lib.Sha1.toBE 4 ctx.toState.e.toNat := by
  have hlist : ctx.h.toList = [ctx.h[0], ctx.h[1], ctx.h[2], ctx.h[3], ctx.h[4]] := by
    apply List.ext_getElem
    · exact Vector.length_toList
    · intro i hi _
      rw [Vector.length_toList] at hi
      rw [Vector.getElem_toList]
      match i, hi with
      | 0, _ | 1, _ | 2, _ | 3, _ | 4, _ => rfl
  rw [hlist]
  simp only [List.flatMap_cons, List.flatMap_nil, wordBytes_eq, List.append_nil, List.append_assoc]
  rfl

/-- The digest of the source is that of RFC 3174. -/
theorem digest_eq {msg : List UInt8} (hlen : msg.length < 2 ^ 61) :
    digest msg = Lib.Sha1.digest msg := by
  have hbits : (UInt64.ofNat msg.length * 8).toNat = 8 * msg.length := by
    rw [UInt64.toNat_mul, UInt64.toNat_ofNat',
      Nat.mod_eq_of_lt (show msg.length < 2 ^ 64 by omega)]
    change msg.length * 8 % 2 ^ 64 = _
    omega
  have hzeros : (120 - (msg ++ [0x80]).length % 64) % 64 = Lib.Sha1.padZeros msg.length := by
    have hleast : IsLeast {z | (msg.length + 1 + z) % 64 = 56}
        ((120 - (msg ++ [0x80]).length % 64) % 64) := by
      rw [List.length_append, List.length_singleton]
      constructor
      · show (msg.length + 1 + (120 - (msg.length + 1) % 64) % 64) % 64 = 56
        omega
      · intro z hz
        have hz : (msg.length + 1 + z) % 64 = 56 := hz
        omega
    exact hleast.unique (Lib.Sha1.padZeros_isLeast msg.length)
  have hpad : padLoop (msg ++ [0x80])
      ++ ([7, 6, 5, 4, 3, 2, 1, 0].map fun i =>
        ((UInt64.ofNat msg.length * 8) >>> UInt64.ofNat (i * 8)).toUInt8)
      = Lib.Sha1.pad msg := by
    rw [padLoop_eq, hzeros, lengthBytes_eq, hbits, Lib.Sha1.pad, List.append_assoc msg]
    rfl
  have hstate := toState_processFrom (Lib.Sha1.pad msg) {} (Lib.Sha1.length_pad_mod msg)
  change _ = (Lib.Sha1.blocks (Lib.Sha1.pad msg)).foldl Lib.Sha1.compress Lib.Sha1.init at hstate
  rw [digest, hpad, flatMap_wordBytes, hstate, Lib.Sha1.digest]

end Sha1

theorem sha1_digest_eq (msg : List UInt8) (hlen : msg.length < 2 ^ 61) :
    Sha1.digest msg = Lib.Sha1.digest msg ∧ (Sha1.digest msg).length = 20 := by
  have heq := Sha1.digest_eq hlen
  refine ⟨heq, ?_⟩
  rw [heq, Lib.Sha1.digest]
  simp only [List.length_append, Lib.Sha1.length_toBE]

theorem sha1_digest_abc :
    Sha1.digest (lit "abc") = Lib.Sha1.digest (lit "abc")
      ∧ (Sha1.digest (lit "abc")).length = 20 :=
  sha1_digest_eq (lit "abc") (by decide)

end Mawmaw.Pub
