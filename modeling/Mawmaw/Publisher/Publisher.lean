import Mawmaw.Core.Event
import Mawmaw.Core.Telemetry

/-!
# The publisher

The endpoints by id. `delivered` is the log of the calls `endpoint->publish(ev)`, oldest first, each
with the id the endpoint is registered under: what an endpoint shows is a function of its part of
the log.
-/

namespace Mawmaw.Pub
open Mawmaw.Lib Mawmaw.Core

variable {P : Nat}

/-- An endpoint with the arguments its constructor was given. -/
inductive Endpoint
  | stdout (id : Str)
  | file (id path : Str)
  | null (id : Str)
  | telemetryStdout (id : Str)
  | webSocket (id host : Str) (port : UInt16)
  | http (id host : Str) (port : UInt16) (path contentType : Str)
  deriving DecidableEq, Repr

def Endpoint.name : Endpoint → Str
  | .stdout id | .file id _ | .null id | .telemetryStdout id | .webSocket id _ _
  | .http id _ _ _ _ => id

structure Publisher (P : Nat) where
  endpoints : UMap Str Endpoint := ∅
  telemetry : Bool := false
  delivered : List (Str × Event P) := []

namespace Publisher

/-- Registers an endpoint under its name; a later one of that name replaces it. -/
def addEndpoint (pub : Publisher P) (ep : Endpoint) : Publisher P :=
  { pub with endpoints := pub.endpoints.insert ep.name ep }

def hasEndpoint (pub : Publisher P) (id : Str) : Bool := (pub.endpoints.lookup id).isSome

/-- Publishes to one endpoint and counts the delivery. -/
def publishTo (pub : Publisher P) (tel : Telemetry) (ev : Event P) (endpointId : Str) :
    Publisher P × Telemetry :=
  match pub.endpoints.lookup endpointId with
  | none => (pub, tel)
  | some _ =>
    ({ pub with delivered := pub.delivered ++ [(endpointId, ev)] },
      if pub.telemetry then tel.recordEmitted ev.stream else tel)

theorem publishTo_of_hasEndpoint {pub : Publisher P} {tel : Telemetry} {ev : Event P} {id : Str}
    (h : pub.hasEndpoint id = true) : (pub.publishTo tel ev id).1
      = { pub with delivered := pub.delivered ++ [(id, ev)] } := by
  obtain ⟨ep, hep⟩ := Option.isSome_iff_exists.mp h
  simp [publishTo, hep]

end Publisher

end Mawmaw.Pub
