import Mathlib.Data.List.DropRight
import Mawmaw.Lib.Numeral
import Mawmaw.Lib.UMap

/-!
# The configuration

A parsed configuration and what is read out of it.

* `Section`, `Config` : the sections, with the keys given once (`kv`) and those that may be repeated
  (`multi`);
* `parseRoutes`, `getScriptEmits`, `getIngestorAs`, `parseWindow` : the values with a syntax of
  their own.
-/

namespace Mawmaw.Conf
open Mawmaw.Lib

structure Section where
  type : Str
  kv : UMap Str Str := ∅
  multi : UMap Str (List Str) := ∅

/-- The value of a key, or `dflt`. The source returns a reference, for a missing key to the default,
which is gone at the end of the expression: this is what a caller has that copies it at once. -/
def Section.get (sec : Section) (key : Str) (dflt : Str := []) : Str := UMap.getD sec.kv key dflt

/-- For references kept from `get`: whether the test `a.empty() || b.empty() || …`, which stops at the
first empty value, reads one of a missing key. -/
def Section.readsMissing (sec : Section) : List Str → Bool
  | [] => false
  | key :: keys =>
    match sec.kv.lookup key with
    | none => true
    | some v => !v.isEmpty && sec.readsMissing keys

def Section.has (sec : Section) (key : Str) : Bool := (sec.kv.lookup key).isSome

structure Config where
  sections : List Section

def Config.ofType (cfg : Config) (type : Str) : List Section :=
  cfg.sections.filter fun sec => sec.type == type

/-! ## Values -/

/-- `" \t\r\n"`. -/
def isBlank (b : UInt8) : Bool := b == 32 || b == 9 || b == 13 || b == 10

def trim (s : Str) : Str := (s.dropWhile isBlank).rdropWhile isBlank

def comma : UInt8 := 44

/-- The trimmed items between commas; empty ones are left out. -/
def splitComma (s : Str) : List Str := ((s.splitOn comma).map trim).filter fun item => !item.isEmpty

def addRoute (routes : UMap Str (List Str)) (key val : Str) : UMap Str (List Str) :=
  let targets := splitComma val
  if targets.isEmpty then routes else routes.insert key (UMap.getD routes key [] ++ targets)

/-- The targets of each stream, from all `[routes]` sections. -/
def parseRoutes (cfg : Config) : UMap Str (List Str) :=
  (cfg.ofType (lit "routes")).foldl
    (fun routes sec => sec.kv.toPairs.foldl (fun routes kv => addRoute routes kv.1 kv.2) routes) ∅

/-- The streams a script declares to emit: the single key, then the repeated ones. -/
def getScriptEmits (sec : Section) : List Str :=
  (if sec.has (lit "emits") then splitComma (sec.get (lit "emits")) else [])
    ++ (UMap.getD sec.multi (lit "emits") []).flatMap splitComma

def getIngestorAs (sec : Section) : Str := sec.get (lit "as")

structure ParsedWindow where
  streamId : Str
  timeBased : Bool := false
  n : UInt64 := 0
  deriving DecidableEq, Repr

/-- Parses `stream_id, count|time, N`; fields after the third are not looked at. -/
def parseWindow (val : Str) : Except Str ParsedWindow :=
  match (val.splitOn comma).map trim with
  | streamId :: kind :: n :: _ =>
    (stoull n).map fun n => { streamId, timeBased := kind == lit "time", n }
  | _ => .error (lit "window needs 3 fields: stream, count|time, N  (got: " ++ val ++ lit ")")

end Mawmaw.Conf
