import Mawmaw.Lib.CString
import Mawmaw.Lib.UMap

/-!
# Telemetry counters

The counters the pipeline's threads bump: events and deliveries by stream, drops, and per-script
call statistics.
-/

namespace Mawmaw.Core
open Mawmaw.Lib

/-- `UINT64_MAX`. -/
def uint64Max : UInt64 := 0xFFFFFFFFFFFFFFFF

structure ScriptStats where
  count : UInt64 := 0
  totalLatencyNs : UInt64 := 0
  minLatencyNs : UInt64 := uint64Max
  maxLatencyNs : UInt64 := 0
  deriving DecidableEq, Repr

structure Telemetry where
  enabled : Bool := false
  eventCounts : UMap Str UInt64 := ∅
  emittedCounts : UMap Str UInt64 := ∅
  drops : UInt64 := 0
  scriptStats : UMap Str ScriptStats := ∅

namespace Telemetry

/-- The streams that carry the metrics themselves are not counted. -/
def isOwnStream (streamId : Str) : Bool :=
  streamId == lit "telemetry" || (lit "telemetry.").isPrefixOf streamId

/-- Adds one to a stream's counter, creating it at zero. -/
def bump (counts : UMap Str UInt64) (streamId : Str) : UMap Str UInt64 :=
  counts.insert streamId (UMap.getD counts streamId 0 + 1)

def recordEvent (tel : Telemetry) (streamId : Str) : Telemetry :=
  if !tel.enabled || isOwnStream streamId then tel
  else { tel with eventCounts := bump tel.eventCounts streamId }

def recordEmitted (tel : Telemetry) (streamId : Str) : Telemetry :=
  if !tel.enabled || isOwnStream streamId then tel
  else { tel with emittedCounts := bump tel.emittedCounts streamId }

def recordDrop (tel : Telemetry) : Telemetry :=
  if !tel.enabled then tel else { tel with drops := tel.drops + 1 }

/-- One call of a registered script that took `durationNs`. -/
def recordScriptInvocation (tel : Telemetry) (scriptId : Str) (durationNs : UInt64) : Telemetry :=
  if !tel.enabled then tel
  else
    match tel.scriptStats.lookup scriptId with
    | none => tel
    | some st =>
      let st : ScriptStats :=
        { count := st.count + 1
          totalLatencyNs := st.totalLatencyNs + durationNs
          minLatencyNs := if durationNs < st.minLatencyNs then durationNs else st.minLatencyNs
          maxLatencyNs := if durationNs > st.maxLatencyNs then durationNs else st.maxLatencyNs }
      { tel with scriptStats := tel.scriptStats.insert scriptId st }

/-- Keeps existing statistics, as `emplace` does. -/
def registerScriptStats (tel : Telemetry) (scriptId : Str) : Telemetry :=
  match tel.scriptStats.lookup scriptId with
  | some _ => tel
  | none => { tel with scriptStats := tel.scriptStats.insert scriptId {} }

end Telemetry

end Mawmaw.Core
