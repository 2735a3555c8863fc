import Mawmaw.Core.WindowRegistry
import Mawmaw.Executor.WasmCodec

/-!
# The WASM script

`WasmScript::invoke_zero_copy`: the input is written to the first `IO_BUF_SIZE` bytes of the linear
memory, `on_trigger` is called, and the response is parsed from the next `IO_BUF_SIZE` bytes.

* `serialize` : the request, with the stores it makes;
* `parseEvents`, `parseResponse` : the response parser;
* `Engine` : what the WASM engine provides, the memory and the call;
* `receive`, `invokeZeroCopy` : the whole call, as the stores into memory, the accesses of the
  parser and the output.
-/

namespace Mawmaw.Executor
open Mawmaw.Lib Mawmaw.Core

variable {P : Nat}

def ioBufSize : Nat := 64 * 1024

/-! ## The request -/

/-- The events the loop over one view writes: those of its ring between its bounds that can be
read. -/
def viewEvents (rings : UMap Str (StreamRing P)) (sid : Str) (view : RingView) : List (Event P) :=
  match rings.lookup sid with
  | some sr => view.events sr.ring
  | none => []

/-- One window: the stream, the size of the view, the events. -/
def writeWindow (rings : UMap Str (StreamRing P)) (w : WritePtr) (sid : Str) (view : RingView) :
    WritePtr :=
  let sidBuf : Vector UInt8 streamIdMax :=
    strncpy (Vector.replicate streamIdMax 0) sid (streamIdMax - 1)
  let w := w.put sidBuf.toList
  let w := w.w32Ptr view.size.toUInt32
  (viewEvents rings sid view).foldl WritePtr.wevPtr w

/-- The trigger event and the windows, written from the start of the memory on. -/
def serialize (input : ZeroCopyInput P) (rings : UMap Str (StreamRing P)) : WritePtr :=
  let w := WritePtr.wevPtr {} input.triggerEvent
  let w := w.w32Ptr (UInt32.ofNat input.windows.toPairs.length)
  input.windows.toPairs.foldl (fun w win => writeWindow rings w win.1 win.2) w

/-! ## The response -/

/-- `n` rounds of the parse loop from offset `out` on. -/
def parseEvents : Nat → Nat → Dec (List (Event P))
  | 0, _ => pure []
  | n + 1, out => do
    let e ← rev out
    let out := out + (8 + 8 + 4 + 2 + streamIdMax + schemaIdMax + e.payloadSize.toNat)
    let es ← parseEvents n out
    pure (e :: es)

/-- Parses the response zone; `reserve` is taken to succeed. -/
def parseResponse : Dec (List (Event P)) := do
  let n ← r32 ioBufSize
  parseEvents n.toNat (ioBufSize + 4)

/-! ## The call -/

/-- What the engine provides: the linear memory, if there is one, and a call of `on_trigger` on a
memory with its four arguments, which traps or returns `written` and leaves a memory. -/
structure Engine where
  memory : Option (List UInt8)
  call : List UInt8 → UInt32 → UInt32 → UInt32 → UInt32 → Option (UInt32 × List UInt8)

/-- The memory after the stores that fall inside it. -/
def applyStores (mem : List UInt8) (stores : List (UInt8 × Nat)) : List UInt8 :=
  stores.foldl (fun mem s => mem.set s.2 s.1) mem

/-- One `invoke_zero_copy`: the stores made while serializing, the accesses of the response parser,
and the output or the parser's fault. -/
structure Invocation (P : Nat) where
  stores : List (UInt8 × Nat) := []
  accesses : List Access := []
  output : Except Fault (ScriptOutput P) := .ok {}

/-- After the call: a length that cannot be a response gives an empty output, any other lets the
parser run, which does not look at the length again. -/
def receive (stores : List (UInt8 × Nat)) (written : UInt32) (mem : List UInt8) : Invocation P :=
  if written = 0 ∨ written.toNat > ioBufSize then { stores }
  else
    { stores
      accesses := (parseResponse (P := P) mem).1
      output := (parseResponse (P := P) mem).2.map fun es => { emitted := es } }

def invokeZeroCopy (engine : Engine) (input : ZeroCopyInput P) (rings : UMap Str (StreamRing P)) :
    Invocation P :=
  match engine.memory with
  | none => {}
  | some mem =>
    if mem.length < ioBufSize * 2 then {}
    else
      let w := serialize input rings
      -- the boundary check of the source: everything is written by now
      if w.pos > ioBufSize then { stores := w.stores }
      else
        match engine.call (applyStores mem w.stores) 0 (UInt32.ofNat w.pos) (UInt32.ofNat ioBufSize)
            (UInt32.ofNat ioBufSize) with
        | none => { stores := w.stores }
        | some (written, mem) => receive w.stores written mem

/-! ## Rules of the parse loop -/

theorem parseEvents_zero_ok {out : Nat} {mem : List UInt8} {log : List Access}
    {es : List (Event P)} : parseEvents 0 out mem = (log, .ok es) ↔ log = [] ∧ es = [] :=
  Dec.pure_eq_ok

theorem parseEvents_succ_ok {n out : Nat} {mem : List UInt8} {log : List Access}
    {es : List (Event P)} :
    parseEvents (n + 1) out mem = (log, .ok es) ↔
      ∃ l₁ e l₂ es', rev out mem = (l₁, .ok e) ∧
        parseEvents n (out + (headerSize + e.payloadSize.toNat)) mem = (l₂, .ok es') ∧
        log = l₁ ++ l₂ ∧ es = e :: es' := by
  rw [parseEvents, Dec.bind_eq_ok]
  simp only [Dec.bind_eq_ok, Dec.pure_eq_ok]
  refine ⟨?_, ?_⟩
  · rintro ⟨l₁, e, l₂, he, ⟨l₂, es', _, hes, ⟨rfl, rfl⟩, rfl⟩, rfl⟩
    exact ⟨l₁, e, l₂, es', he, hes, by rw [List.append_nil], rfl⟩
  · rintro ⟨l₁, e, l₂, es', he, hes, rfl, rfl⟩
    exact ⟨l₁, e, l₂, he, ⟨l₂, es', [], hes, ⟨rfl, rfl⟩, by rw [List.append_nil]⟩, rfl⟩

theorem parseResponse_ok {mem : List UInt8} {log : List Access} {es : List (Event P)} :
    parseResponse mem = (log, .ok es) ↔
      ioBufSize + 4 ≤ mem.length ∧
        ∃ l, parseEvents (ofLE32 (slice mem ioBufSize 4)).toNat (ioBufSize + 4) mem = (l, .ok es) ∧
          log = .read ioBufSize 4 :: l := by
  rw [parseResponse, r32, Dec.bind_word_eq_ok (by decide)]

end Mawmaw.Executor
