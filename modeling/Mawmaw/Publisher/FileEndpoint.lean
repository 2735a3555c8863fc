import Mawmaw.Config.Parse
import Mawmaw.Lib.Lines
import Mawmaw.Publisher.Publisher

/-!
# The log file

* `FileEndpoint.publish` : appends a line for an event;
* `LogEntry` : what a line tells; `parseEntry` : a line, read from its ends; `readLog`;
* `readLog_publishAll` : the log of some events; `readLog_part` : as much of a log as there is.
-/

namespace Mawmaw.Pub
open Mawmaw.Lib Mawmaw.Core Mawmaw.Conf

variable {P : Nat}

/-! ## Writing -/

/-- `out` is the text of the file, which is opened for appending. -/
structure FileEndpoint where
  id : Str
  out : Str := []

/-- The line of an event, without its end. -/
def logLine (ev : Event P) : Str :=
  natStr ev.timestampNs.toNat ++ lit " stream=" ++ ev.stream ++ lit " seq="
    ++ natStr ev.sequence.toNat ++ lit " bytes=" ++ natStr ev.payloadSize.toNat
    ++ lit " lineage=" ++ natStr ev.lineageDepth.toNat

namespace FileEndpoint

/-- Writes the line and flushes it. -/
def publish (ep : FileEndpoint) (ev : Event P) : FileEndpoint :=
  { ep with out := ep.out ++ (logLine ev ++ [newline]) }

def publishAll (ep : FileEndpoint) (evs : List (Event P)) : FileEndpoint := evs.foldl publish ep

theorem publishAll_out (ep : FileEndpoint) (evs : List (Event P)) :
    (ep.publishAll evs).out = ep.out ++ evs.flatMap fun ev => logLine ev ++ [newline] := by
  induction evs generalizing ep with
  | nil => exact (List.append_nil ep.out).symm
  | cons ev evs ih =>
      have hstep : ep.publishAll (ev :: evs) = (ep.publish ev).publishAll evs := rfl
      rw [hstep, ih, publish, List.flatMap_cons, List.append_assoc]

end FileEndpoint

/-! ## Reading -/

structure LogEntry where
  timestampNs : Nat
  stream : Str
  sequence : Nat
  payloadSize : Nat
  lineageDepth : Nat
  deriving DecidableEq, Repr

/-- What the line of an event tells. -/
def LogEntry.of (ev : Event P) : LogEntry where
  timestampNs := ev.timestampNs.toNat
  stream := ev.stream
  sequence := ev.sequence.toNat
  payloadSize := ev.payloadSize.toNat
  lineageDepth := ev.lineageDepth.toNat

/-- The numbers after the stream are taken from the end: the stream may hold anything. -/
def parseEntry (line : Str) : Option LogEntry :=
  (takeField (lit "lineage=") line).bind fun lineage =>
  (takeField (lit "bytes=") lineage.1).bind fun bytes =>
  (takeField (lit "seq=") bytes.1).bind fun seq =>
  (cut blank seq.1).bind fun ts =>
    let stream := ts.2.drop (lit "stream=").length
    if ts.1 = natStr (decimal ts.1) ∧ ts.2 = lit "stream=" ++ stream then
      some
        { timestampNs := decimal ts.1, stream, sequence := seq.2, payloadSize := bytes.2
          lineageDepth := lineage.2 }
    else none

/-- The entries of a text, and what is left of it. -/
def readLog (text : Str) : List LogEntry × Str :=
  readAll (takeLine newline parseEntry) text.length text

theorem logLine_fields (ev : Event P) :
    logLine ev = natStr ev.timestampNs.toNat ++ blank :: (lit "stream=" ++ ev.stream)
      ++ blank :: (lit "seq=" ++ natStr ev.sequence.toNat)
      ++ blank :: (lit "bytes=" ++ natStr ev.payloadSize.toNat)
      ++ blank :: (lit "lineage=" ++ natStr ev.lineageDepth.toNat) := by
  have hstream : lit " stream=" = blank :: lit "stream=" := rfl
  have hseq : lit " seq=" = blank :: lit "seq=" := rfl
  have hbytes : lit " bytes=" = blank :: lit "bytes=" := rfl
  have hlineage : lit " lineage=" = blank :: lit "lineage=" := rfl
  rw [logLine, hstream, hseq, hbytes, hlineage]
  simp only [List.append_assoc, List.cons_append]

theorem parseEntry_logLine (ev : Event P) : parseEntry (logLine ev) = some (.of ev) := by
  rw [parseEntry, logLine_fields, takeField_field (by decide), Option.bind_some,
    takeField_field (by decide), Option.bind_some, takeField_field (by decide), Option.bind_some,
    cut_of_not_mem (not_mem_natStr rfl _), Option.bind_some]
  simp only [List.drop_left, decimal_natStr, and_self, if_true]
  rfl

theorem newline_not_mem_logLine {ev : Event P} (h : newline ∉ ev.stream) :
    newline ∉ logLine ev := by
  have hnat : ∀ n, newline ∉ natStr n := not_mem_natStr rfl
  have hstream : newline ∉ lit " stream=" := by decide
  have hseq : newline ∉ lit " seq=" := by decide
  have hbytes : newline ∉ lit " bytes=" := by decide
  have hlineage : newline ∉ lit " lineage=" := by decide
  simp only [logLine, List.mem_append, not_or]
  exact ⟨⟨⟨⟨⟨⟨⟨⟨hnat _, hstream⟩, h⟩, hseq⟩, hnat _⟩, hbytes⟩, hnat _⟩, hlineage⟩, hnat _⟩

/-- The events that make one line. -/
abbrev OneLine (P : Nat) : Type := { ev : Event P // newline ∉ ev.stream }

theorem reads_logLine : Reads (takeLine newline parseEntry)
    (fun ev : OneLine P => logLine ev.1 ++ [newline]) fun ev => .of ev.1 :=
  reads_takeLine (fun ev => newline_not_mem_logLine ev.2) fun ev => parseEntry_logLine ev.1

theorem length_le_log (evs : List (Event P)) :
    evs.length ≤ (evs.flatMap fun ev => logLine ev ++ [newline]).length := by
  induction evs with
  | nil => exact Nat.le_refl _
  | cons ev evs ih =>
      rw [List.flatMap_cons, List.length_append, List.length_append, List.length_singleton,
        List.length_cons]
      omega

/-- A log tells its events. -/
theorem readLog_publishAll {evs : List (Event P)} (h : ∀ ev ∈ evs, newline ∉ ev.stream) (id : Str) :
    readLog (({ id } : FileEndpoint).publishAll evs).out = (evs.map .of, []) := by
  let lines : List (OneLine P) := evs.attachWith _ h
  have hevs : lines.map Subtype.val = evs := List.attachWith_map_subtype_val h
  have hlog : (({ id } : FileEndpoint).publishAll evs).out
      = lines.flatMap (fun ev => logLine ev.1 ++ [newline]) ++ [] := by
    rw [FileEndpoint.publishAll_out, List.nil_append, List.append_nil, ← hevs, List.flatMap_map]
  have hlen : lines.length ≤ (({ id } : FileEndpoint).publishAll evs).out.length := by
    rw [FileEndpoint.publishAll_out, List.length_attachWith]
    exact length_le_log evs
  have hout : lines.map (fun ev : OneLine P => LogEntry.of ev.1) = evs.map .of := by
    rw [← hevs, List.map_map]
    rfl
  rw [hlog] at hlen
  rw [readLog, hlog, reads_logLine.readAll (.inl rfl) lines hlen, hout]

/-- What has got to the disk of a log tells no more than the log. -/
theorem readLog_part {t text : Str} (h : t <+: text) : (readLog t).1 <+: (readLog text).1 := by
  obtain ⟨u, rfl⟩ := h
  have hlen : t.length ≤ (t ++ u).length := by
    rw [List.length_append]
    exact Nat.le_add_right _ _
  exact (reads_logLine (P := 0)).readAll_more hlen t u

end Mawmaw.Pub
