import Mathlib.Order.Bounds.Basic
import Mawmaw.Lib.HttpRequest
import Mawmaw.Lib.Pieces

/-!
# The answers of the HTTP endpoint

* `HttpEndpoint`, `hasBlankLine`, `response`, `handleClient` : a client's request is read up to a
  blank line, and answered by its method and path;
* `BlankAt` : where a blank line stands; `handleClient_of_cut` : the answer, whatever the pieces;
* `http_answers_cut` : two ways of cutting one request.
-/

namespace Mawmaw.Pub
open Mawmaw.Lib

/-! ## The code -/

/-- What `handleClient` reads of the endpoint; `payload` is the last one published. -/
structure HttpEndpoint where
  path : Str
  contentType : Str
  payload : Str

def recvSize : Nat := 4095

def lflf : Str := [10, 10]

def hasBlankLine (request : Str) : Bool :=
  (findSub (crlf ++ crlf) request).isSome || (findSub lflf request).isSome

def HttpEndpoint.response (ep : HttpEndpoint) (method path : Str) : Str :=
  if method = lit "GET" ∧ path = ep.path then
    lit "HTTP/1.1 200 OK\r\n" ++ (lit "Content-Type: " ++ ep.contentType ++ lit "\r\n")
      ++ (lit "Content-Length: " ++ natStr ep.payload.length ++ lit "\r\n")
      ++ lit "Connection: close\r\n" ++ lit "\r\n" ++ ep.payload
  else if method = lit "GET" ∧ path = lit "/health" then
    lit "HTTP/1.1 200 OK\r\n" ++ lit "Content-Type: text/plain\r\n"
      ++ lit "Content-Length: 2\r\n" ++ lit "Connection: close\r\n" ++ lit "\r\n" ++ lit "OK"
  else if method ≠ lit "GET" then
    lit "HTTP/1.1 405 Method Not Allowed\r\n" ++ lit "Allow: GET\r\n"
      ++ lit "Connection: close\r\n" ++ lit "\r\n"
  else
    lit "HTTP/1.1 404 Not Found\r\n" ++ lit "Connection: close\r\n" ++ lit "\r\n"

/-- `dropped` : a `recv` has failed, and the connection is closed without an answer. -/
inductive Handled
  | waiting
  | dropped
  | sent (response : Str)
  deriving DecidableEq

/-- The version behind the path is read and not looked at. -/
def handleClient (ep : HttpEndpoint) (recvs : List Received) : Handled :=
  match readUntil hasBlankLine [] recvs with
  | .waiting => .waiting
  | .failed => .dropped
  | .ended request =>
    let method := nextWord request
    let path := nextWord method.2
    .sent (ep.response method.1 path.1)

/-! ## Blank lines -/

/-- A blank line, in either form, from `i` on. -/
def BlankAt (s : Str) (i : Nat) : Prop := crlf ++ crlf <+: s.drop i ∨ lflf <+: s.drop i

instance (s : Str) (i : Nat) : Decidable (BlankAt s i) := inferInstanceAs (Decidable (_ ∨ _))

theorem hasBlankLine_iff {s : Str} : hasBlankLine s = true ↔ ∃ i, BlankAt s i := by
  unfold hasBlankLine BlankAt
  rw [Bool.or_eq_true, isSome_findSub, isSome_findSub, exists_or]

theorem BlankAt.lt_length {s : Str} {i : Nat} (h : BlankAt s i) : i < s.length := by
  have hlen : 0 < (s.drop i).length := by
    obtain hcrlf | hlf := h
    · exact Nat.lt_of_lt_of_le (by decide) hcrlf.length_le
    · exact Nat.lt_of_lt_of_le (by decide) hlf.length_le
  rw [List.length_drop] at hlen
  omega

theorem BlankAt.of_beginning {s t : Str} {i : Nat} (h : BlankAt t i) (ht : t <+: s) :
    BlankAt s i := by
  have hdrop : t.drop i <+: s.drop i := by
    obtain ⟨u, rfl⟩ := ht
    rw [List.drop_append_of_le_length (Nat.le_of_lt h.lt_length)]
    exact List.prefix_append _ _
  exact h.imp (fun hcrlf => hcrlf.trans hdrop) (fun hlf => hlf.trans hdrop)

/-! ## Runs -/

/-- A beginning with a blank line in it reaches past what stands before the first one. -/
theorem lt_length_of_hasBlankLine {s t : Str} {blank : Nat}
    (hblank : IsLeast {i | BlankAt s i} blank) (ht : t <+: s) (hhas : hasBlankLine t = true) :
    blank < t.length := by
  obtain ⟨i, hi⟩ := hasBlankLine_iff.mp hhas
  exact Nat.lt_of_le_of_lt (hblank.2 (hi.of_beginning ht)) hi.lt_length

section Runs
variable (ep : HttpEndpoint) {s method path : Str} {stop blank : Nat}
  (hwords : TwoWords s method path stop) (hblank : IsLeast {i | BlankAt s i} blank)
  (hstop : stop ≤ blank)
include hwords hblank hstop

theorem handleClient_of_cut {ps : List Str} (hps : ps.flatten = s) (more : List Received) :
    handleClient ep (ps.map .bytes ++ more) = .sent (ep.response method path) := by
  have hwhole : hasBlankLine ([] ++ ps.flatten) = true := by
    rw [List.nil_append, hps]
    exact hasBlankLine_iff.mpr ⟨blank, hblank.1⟩
  obtain ⟨t, ht, hhas, hread⟩ := readUntil_cut ps (by decide) hwhole more
  rw [List.nil_append, hps] at ht
  have hlong : stop < t.length :=
    Nat.lt_of_le_of_lt hstop (lt_length_of_hasBlankLine hblank ht hhas)
  obtain ⟨hmethod, hpath⟩ := (hwords.of_longer ht hlong).nextWord
  unfold handleClient
  rw [hread]
  simp only [hmethod, hpath]

/-- The pieces the request arrives in do not change the answer. -/
theorem http_answers_cut {ps qs : List Str} (hps : Cut recvSize s ps) (hqs : Cut recvSize s qs)
    (more more' : List Received) :
    ∃ response, handleClient ep (ps.map .bytes ++ more) = .sent response
      ∧ handleClient ep (qs.map .bytes ++ more') = .sent response :=
  ⟨ep.response method path, handleClient_of_cut ep hwords hblank hstop hps.whole more,
    handleClient_of_cut ep hwords hblank hstop hqs.whole more'⟩

end Runs

theorem http_answers_cut_three :
    ∃ response, handleClient ⟨lit "/x", lit "text/plain", lit "64"⟩
        ([lit "GET /x HTTP/1.1\r\n\r\n\n\n"].map .bytes ++ []) = .sent response
      ∧ handleClient ⟨lit "/x", lit "text/plain", lit "64"⟩
        ([lit "GE", lit "T /x HTTP/1.1\r\n\r", lit "\n\n\n"].map .bytes ++ [.closed])
          = .sent response := by
  have hwords : TwoWords (lit "GET /x HTTP/1.1\r\n\r\n\n\n") (lit "GET") (lit "/x") 6 := by
    refine ⟨[], [32], lit " HTTP/1.1\r\n\r\n\n\n", by decide, by decide, by decide, by decide,
      by decide, by decide, ?_, by decide⟩
    intro b hb
    cases hb
    decide
  have hblank : IsLeast {i | BlankAt (lit "GET /x HTTP/1.1\r\n\r\n\n\n") i} 15 := by
    have hbefore : ∀ i < 15, ¬BlankAt (lit "GET /x HTTP/1.1\r\n\r\n\n\n") i := by decide +kernel
    refine ⟨?_, fun i hi => Nat.le_of_not_lt fun hlt => hbefore i hlt hi⟩
    change BlankAt _ 15
    decide +kernel
  exact http_answers_cut _ hwords hblank (by decide) ⟨by decide, by decide, by decide⟩
    ⟨by decide, by decide, by decide⟩ [] [.closed]

end Mawmaw.Pub
