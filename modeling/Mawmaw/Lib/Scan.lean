import Mawmaw.Lib.LittleEndian

/-!
# Readers that keep their offsets

`Scan α` : a reader of a byte buffer, with the offsets it looks at, in order. What is read next may
depend on what was read.

* `Scan.block`, `Scan.byte` : the primitive readers; `Scan.records` : one record after another;
* `value_records`, `reads_records` : records of a fixed size, read one after the other.
-/

namespace Mawmaw.Lib

def Scan (α : Type) : Type := List UInt8 → α × List Nat

namespace Scan
variable {α β : Type}

def value (s : Scan α) (p : List UInt8) : α := (s p).1

def reads (s : Scan α) (p : List UInt8) : List Nat := (s p).2

instance : Monad Scan where
  pure a := fun _ => (a, [])
  bind s next := fun p => ((next (s.value p)).value p, s.reads p ++ (next (s.value p)).reads p)

/-- The `n` bytes from `off` on. -/
def block (off n : Nat) : Scan (List UInt8) := fun p => (slice p off n, List.range' off n)

def byte (off : Nat) : Scan UInt8 := fun p => (p.getD off 0, [off])

/-- `n` records of `size` bytes from `off` on. -/
def records (read : Nat → Scan α) (size : Nat) : Nat → Nat → Scan (List α)
  | 0, _ => pure []
  | n + 1, off => do
    let x ← read off
    let xs ← records read size n (off + size)
    pure (x :: xs)

variable (p : List UInt8)

@[simp] theorem value_pure (a : α) : (pure a : Scan α).value p = a := rfl

@[simp] theorem reads_pure (a : α) : (pure a : Scan α).reads p = [] := rfl

@[simp] theorem value_bind (s : Scan α) (next : α → Scan β) :
    (s >>= next).value p = (next (s.value p)).value p := rfl

@[simp] theorem reads_bind (s : Scan α) (next : α → Scan β) :
    (s >>= next).reads p = s.reads p ++ (next (s.value p)).reads p := rfl

@[simp] theorem value_block (off n : Nat) : (block off n).value p = slice p off n := rfl

@[simp] theorem reads_block (off n : Nat) : (block off n).reads p = List.range' off n := rfl

@[simp] theorem value_byte (off : Nat) : (byte off).value p = p.getD off 0 := rfl

@[simp] theorem reads_byte (off : Nat) : (byte off).reads p = [off] := rfl

theorem value_records {read : Nat → Scan α} {get : List UInt8 → Nat → α} {size : Nat}
    (hread : ∀ off, (read off).value p = get p off) (n off : Nat) :
    (records read size n off).value p = readRecords get size p n off := by
  induction n generalizing off with
  | zero => rfl
  | succ n ih => rw [records, value_bind, value_bind, value_pure, hread, ih, readRecords]

theorem reads_records {read : Nat → Scan α} {size : Nat}
    (hread : ∀ off, (read off).reads p = List.range' off size) (n off : Nat) :
    (records read size n off).reads p = List.range' off (size * n) := by
  induction n generalizing off with
  | zero => rfl
  | succ n ih =>
      rw [records, reads_bind, reads_bind, reads_pure, hread, ih, List.append_nil,
        List.range'_append_1, Nat.mul_succ, Nat.add_comm]

end Scan

end Mawmaw.Lib
