import Mawmaw.Config.Config
import Mawmaw.Publisher.Publisher

/-!
# The endpoint factory

* `makeEndpoint` : the endpoint a `[publisher]` section asks for, or the text of the error;
* `makeEndpoint_fits` : it bears the section's id.
-/

namespace Mawmaw.Pub
open Mawmaw.Lib Mawmaw.Conf

/-- `static_cast<uint16_t>` of a parsed port. -/
def castPort (v : Int) : UInt16 := UInt16.ofNat (v % 2 ^ 16).toNat

/-- `"[publisher] '" + id + "' " + text`. -/
def publisherError (id text : Str) : Str :=
  lit "[publisher] '" ++ id ++ lit "' " ++ text

/-- The endpoint and its constructor's arguments; opening a file or a socket comes after it. -/
def makeEndpoint (sec : Section) : Except Str Endpoint :=
  let id := sec.get (lit "id")
  let type := sec.get (lit "type")
  if id.isEmpty then .error (lit "[publisher] missing 'id'")
  else if type.isEmpty then .error (publisherError id (lit "missing 'type'"))
  else if type = lit "stdout" then .ok (.stdout id)
  else if type = lit "null" then .ok (.null id)
  else if type = lit "telemetry" then .ok (.telemetryStdout id)
  else if type = lit "file" then
    let path := sec.get (lit "path")
    if path.isEmpty then .error (publisherError id (lit "type=file requires 'path'"))
    else .ok (.file id path)
  else if type = lit "websocket" then
    let portStr := sec.get (lit "port")
    if portStr.isEmpty then .error (publisherError id (lit "type=websocket requires 'port'"))
    else
      let host := sec.get (lit "host") (lit "0.0.0.0")
      (stoi portStr).map fun port => .webSocket id host (castPort port)
  else if type = lit "http" then
    let host := sec.get (lit "host") (lit "0.0.0.0")
    let portStr := sec.get (lit "port")
    if portStr.isEmpty then .error (publisherError id (lit "type=http requires 'port'"))
    else
      (stoi portStr).map fun port =>
        .http id host (castPort port) (sec.get (lit "path") (lit "/"))
          (sec.get (lit "content_type") (lit "text/plain"))
  else .error (publisherError id (lit "unknown type '" ++ type ++ lit "'"))

/-- What is made bears the section's id; a telemetry endpoint comes of the type alone. -/
def Fits (sec : Section) (ep : Endpoint) : Prop :=
  ep.name = sec.get (lit "id") ∧ sec.get (lit "id") ≠ []
    ∧ ∀ id, ep = .telemetryStdout id → sec.get (lit "type") = lit "telemetry"

theorem exists_of_map_ok {α β : Type} {e : Except Str α} {f : α → β} {b : β}
    (h : e.map f = .ok b) : ∃ a, b = f a := by
  cases e with
  | error _ => cases h
  | ok a => exact ⟨a, (Except.ok.inj h).symm⟩

/-- Past a check that throws. -/
theorem of_ite_error {ε α : Type} {c : Prop} [Decidable c] {e : ε} {x : Except ε α} {a : α}
    (h : (if c then .error e else x) = .ok a) : ¬c ∧ x = .ok a := by
  by_cases hc : c
  · rw [if_pos hc] at h
    cases h
  · rw [if_neg hc] at h
    exact ⟨hc, h⟩

theorem makeEndpoint_fits {sec : Section} {ep : Endpoint} (h : makeEndpoint sec = .ok ep) :
    Fits sec ep := by
  unfold makeEndpoint at h
  obtain ⟨hid, h⟩ := of_ite_error h
  obtain ⟨-, h⟩ := of_ite_error h
  have hne : sec.get (lit "id") ≠ [] := fun hnil => hid (List.isEmpty_iff.mpr hnil)
  have hfits (hname : ep.name = sec.get (lit "id")) (hkind : ∀ id, ep ≠ .telemetryStdout id) :
      Fits sec ep := ⟨hname, hne, fun id hep => absurd hep (hkind id)⟩
  split at h
  · cases h
    exact hfits rfl (by simp)
  split at h
  · cases h
    exact hfits rfl (by simp)
  split at h
  · next htel =>
    cases h
    exact ⟨rfl, hne, fun _ _ => htel⟩
  split at h
  · obtain ⟨-, h⟩ := of_ite_error h
    cases h
    exact hfits rfl (by simp)
  split at h
  · obtain ⟨-, h⟩ := of_ite_error h
    obtain ⟨port, rfl⟩ := exists_of_map_ok h
    exact hfits rfl (by simp)
  split at h
  · obtain ⟨-, h⟩ := of_ite_error h
    obtain ⟨port, rfl⟩ := exists_of_map_ok h
    exact hfits rfl (by simp)
  · cases h

end Mawmaw.Pub
