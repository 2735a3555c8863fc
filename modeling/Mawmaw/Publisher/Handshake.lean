import Mathlib.Data.List.DropRight
import Mawmaw.Lib.HttpRequest
import Mawmaw.Publisher.Sha1

/-!
# The handshake

* `readRequest`, `findKey`, `parseWsKey` : the request is read byte by byte up to its blank line, and
  the key is searched for in all of it; `handshake` : the answer;
* `readRequest_bytes`, `readRequest_text` : a request of at most 8192 bytes is read, and nothing
  after it;
* `findKey_bytes` : the search goes by lines; `keyValue` : the value of the key's field;
* `Aligned`, `Absent`, `SameElsewhere` : the requests in which the search finds it
  (`parse_ws_key_iff`).
-/

namespace Mawmaw.Pub
open Mawmaw.Lib

/-! ## The code -/

def maxRequest : Nat := 8192

/-- The read loop: the request so far and the bytes the client has sent and the handler has not
read. The client has closed the connection where they end. -/
def readRequest : List UInt8 → List UInt8 → Option (List UInt8 × List UInt8)
  | req, [] => if req.length < maxRequest then none else some (req, [])
  | req, c :: rest =>
    if req.length < maxRequest then
      let req := req ++ [c]
      if 4 ≤ req.length ∧ req.drop (req.length - 4) = lit "\r\n\r\n" then some (req, rest)
      else readRequest req rest
    else some (req, c :: rest)

/-- `needle`. -/
def keyNeedle : Str := lit "Sec-WebSocket-Key:"

/-- `" \t"`. -/
def isOws (b : UInt8) : Bool := b == 32 || b == 9

def trimOws (s : Str) : Str := (s.dropWhile isOws).rdropWhile isOws

/-- The rest of the line after the first `needle` of a request. -/
def findKey (req : Str) : Str :=
  match findSub keyNeedle req with
  | none => []
  | some pos =>
    let after := req.drop (pos + keyNeedle.length)
    match findSub (lit "\r\n") after with
    | none => trimOws after
    | some len => trimOws (after.take len)

/-- The key, and the bytes left unread. -/
def parseWsKey (input : List UInt8) : Str × List UInt8 :=
  match readRequest [] input with
  | none => ([], [])
  | some (req, rest) => (findKey req, rest)

def handshakeResponse (key : Str) : Str :=
  lit "HTTP/1.1 101 Switching Protocols\r\n" ++ lit "Upgrade: websocket\r\n"
    ++ lit "Connection: Upgrade\r\n" ++ lit "Sec-WebSocket-Accept: " ++ wsAcceptKey key
    ++ lit "\r\n\r\n"

/-- The response, if the connection is not closed at once, and the bytes left for the frames. -/
def handshake (input : List UInt8) : Option Str × List UInt8 :=
  let (key, rest) := parseWsKey input
  (if key.isEmpty then none else some (handshakeResponse key), rest)

/-! ## Reading the request -/

theorem crlf_eq : lit "\r\n" = crlf := by decide

theorem blank_eq : lit "\r\n\r\n" = crlf ++ crlf := by decide

/-- The request is read to its end and no further. -/
theorem readRequest_bytes (r : Request) (hlen : r.bytes.length ≤ maxRequest)
    (following : List UInt8) :
    readRequest [] (r.bytes ++ following) = some (r.bytes, following) := by
  have hloop : ∀ (suf pre : List UInt8), pre ++ suf = r.bytes → suf ≠ [] →
      readRequest pre (suf ++ following) = some (r.bytes, following) := by
    intro suf
    induction suf with
    | nil => exact fun pre _ hne => absurd rfl hne
    | cons c suf ih =>
        intro pre hsplit _
        have hwhole : pre ++ [c] ++ suf = r.bytes := by rw [← hsplit, List.append_assoc]; rfl
        have htotal := congrArg List.length hwhole
        simp only [List.length_append, List.length_singleton] at htotal
        rw [List.cons_append, readRequest, if_pos (by omega), blank_eq]
        by_cases hblank : 4 ≤ (pre ++ [c]).length
            ∧ (pre ++ [c]).drop ((pre ++ [c]).length - 4) = crlf ++ crlf
        · -- the blank line read is the one at the end
          have hat : crlf ++ crlf <+: r.bytes.drop ((pre ++ [c]).length - 4) := by
            rw [← hwhole, List.drop_append_of_le_length (Nat.sub_le _ _), hblank.2]
            exact List.prefix_append _ _
          have hend := r.blank_at_end hat
          have hlast : suf = [] := by
            apply List.length_eq_zero_iff.mp
            have := hblank.1
            rw [List.length_append, List.length_singleton] at hend this
            omega
          subst hlast
          rw [List.append_nil] at hwhole
          rw [if_pos hblank, hwhole]
          rfl
        · rw [if_neg hblank]
          apply ih _ hwhole
          rintro rfl
          apply hblank
          rw [List.append_nil] at hwhole
          obtain ⟨front, hfront⟩ := r.ends_blank
          rw [hwhole, ← hfront, List.length_append]
          refine ⟨Nat.le_add_left 4 _, ?_⟩
          exact List.drop_left' (by simp [crlf])
  apply hloop r.bytes [] rfl
  intro hnil
  have hlong := r.ends_blank.length_le
  rw [hnil] at hlong
  exact absurd hlong (by decide)

/-- A text that ends with its first blank line is read to its end, whatever stands in it. -/
theorem readRequest_text {text : List UInt8} (hend : crlf ++ crlf <:+ text)
    (hfirst : ∀ j, crlf ++ crlf <+: text.drop j → j + 4 = text.length)
    (hlen : text.length ≤ maxRequest) (following : List UInt8) :
    readRequest [] (text ++ following) = some (text, following) := by
  obtain ⟨r, rfl⟩ := exists_request hend hfirst
  exact readRequest_bytes r hlen following

theorem parseWsKey_bytes (r : Request) (hlen : r.bytes.length ≤ maxRequest)
    (following : List UInt8) :
    parseWsKey (r.bytes ++ following) = (findKey r.bytes, following) := by
  rw [parseWsKey, readRequest_bytes r hlen following]

/-! ## The key -/

def keyName : Str := lit "Sec-WebSocket-Key"

/-- The value of the key's field, trimmed; empty where there is no such field. -/
def keyValue (r : Request) : Str := trimOws ((r.value? keyName).getD [])

/-- What stands in a request after the first place of the needle, up to the end of its line. -/
theorem findKey_eq {req before text after : Str}
    (hreq : req = before ++ keyNeedle ++ text ++ crlf ++ after)
    (hfirst : findSub keyNeedle req = some before.length) (htext : IsLine text) :
    findKey req = trimOws text := by
  have hafter : req.drop (before.length + keyNeedle.length) = text ++ crlf ++ after := by
    rw [hreq, ← List.length_append, List.append_assoc, List.append_assoc, List.drop_left,
      List.append_assoc]
  rw [findKey, hfirst]
  simp only
  rw [hafter, crlf_eq, htext.findSub_crlf]
  simp only
  rw [List.append_assoc, List.take_left]

/-- What follows the first needle of a line. -/
def afterNeedle (l : Str) : Option Str :=
  (findSub keyNeedle l).map fun i => l.drop (i + keyNeedle.length)

theorem afterNeedle_eq_none {l : Str} : afterNeedle l = none ↔ ¬keyNeedle <:+: l := by
  rw [afterNeedle, Option.map_eq_none_iff, findSub_eq_none_iff_infix]

theorem afterNeedle_eq_some {l text : Str} (h : afterNeedle l = some text) :
    ∃ u, l = u ++ keyNeedle ++ text ∧ findSub keyNeedle l = some u.length := by
  rw [afterNeedle, Option.map_eq_some_iff] at h
  obtain ⟨i, hfind, htext⟩ := h
  obtain ⟨⟨t, ht⟩, -⟩ := findSub_eq_some.mp hfind
  have hdrop : t = text := by rw [← htext, ← List.drop_drop, ← ht, List.drop_left]
  have hlen : (l.take i).length = i := by
    have hlong := congrArg List.length ht
    rw [List.length_append, List.length_drop] at hlong
    have : keyNeedle.length = 18 := by decide
    rw [List.length_take]
    omega
  refine ⟨l.take i, ?_, by rw [hlen, hfind]⟩
  rw [List.append_assoc, ← hdrop, ht, List.take_append_drop]

theorem afterNeedle_of_starts {l : Str} (h : keyNeedle <+: l) :
    afterNeedle l = some (l.drop keyNeedle.length) := by
  have hfind : findSub keyNeedle l = some 0 :=
    findSub_eq_some.mpr ⟨h, fun j hj => absurd hj (Nat.not_lt_zero j)⟩
  rw [afterNeedle, hfind, Option.map_some, Nat.zero_add]

/-- The search goes by lines: the key is read from the first line the needle stands in. -/
theorem findKey_bytes (r : Request) :
    findKey r.bytes = trimOws ((r.lines.findSome? afterNeedle).getD []) := by
  have hne : keyNeedle ≠ [] := by decide
  have hfree : ∀ b ∈ crlf, b ∉ keyNeedle :=
    List.forall_mem_cons.mpr ⟨by decide, List.forall_mem_singleton.mpr (by decide)⟩
  cases hsome : r.lines.findSome? afterNeedle with
  | none =>
      have hnone : findSub keyNeedle r.bytes = none := by
        rw [r.bytes_eq]
        apply findSub_encFields_none hne hfree
        intro l hl
        exact Option.map_eq_none_iff.mp (List.findSome?_eq_none_iff.mp hsome l hl)
      rw [findKey, hnone]
      rfl
  | some text =>
      obtain ⟨before, l, after, hlines, htext, hbefore⟩ := List.findSome?_eq_some_iff.mp hsome
      obtain ⟨u, hl, hfind⟩ := afterNeedle_eq_some htext
      have hfirst := findSub_encFields hne hfree after
        (fun m hm => Option.map_eq_none_iff.mp (hbefore m hm)) hfind
      rw [← hlines, ← r.bytes_eq, ← List.length_append] at hfirst
      have hreq : r.bytes
          = (before.flatMap (· ++ crlf) ++ u) ++ keyNeedle ++ text ++ crlf ++ encFields after := by
        rw [r.bytes_eq, hlines, hl, encFields, encFields, List.flatMap_append, List.flatMap_cons]
        simp only [List.append_assoc]
      have hline : IsLine text := by
        have hmem : l ∈ r.lines := by
          rw [hlines]
          exact List.mem_append_right before List.mem_cons_self
        apply (r.isLine hmem).of_suffix
        rw [hl]
        exact List.suffix_append _ text
      exact findKey_eq hreq hfirst hline

/-! ## Where the search is right -/

/-- A line is the first field of the key's name; `before` are the lines above it. -/
def IsKeyField (r : Request) (before : List Str) (l : Str) : Prop :=
  IsField keyName l ∧ ∃ fields, before = r.requestLine :: fields ∧ ∀ f ∈ fields, ¬IsField keyName f

/-- A line is the first in which the needle stands. -/
def HasNeedle (r : Request) (before : List Str) (l : Str) : Prop :=
  keyNeedle <:+: l ∧ (∀ m ∈ before, ¬keyNeedle <:+: m) ∧ ∃ after, r.lines = before ++ l :: after

/-- The needle stands first in the key's field, at its start. -/
def Aligned (r : Request) : Prop :=
  ∃ before l, HasNeedle r before l ∧ IsKeyField r before l ∧ keyNeedle <+: l

/-- The needle stands nowhere, and no field of its name has a value. -/
def Absent (r : Request) : Prop := (∀ l ∈ r.lines, ¬keyNeedle <:+: l) ∧ keyValue r = []

/-- The needle stands first in another line, which goes on with the field's value, blanks aside. -/
def SameElsewhere (r : Request) : Prop :=
  ∃ before l text, HasNeedle r before l ∧ ¬IsKeyField r before l ∧ afterNeedle l = some text
    ∧ trimOws text = keyValue r

theorem keyValue_of_isKeyField {r : Request} {before after : List Str} {l : Str}
    (h : IsKeyField r before l) (hlines : r.lines = before ++ l :: after) :
    keyValue r = trimOws (fieldValue l) := by
  obtain ⟨hl, fields, rfl, hbefore⟩ := h
  have hfields : r.fields = fields ++ l :: after := (List.cons.inj hlines).2
  have hfind : r.fields.find? (fun l => decide (IsField keyName l)) = some l := by
    rw [hfields, List.find?_append, List.find?_eq_none.mpr (by simpa using hbefore),
      List.find?_cons_of_pos (by simpa using hl)]
    rfl
  rw [keyValue, Request.value?, hfind]
  rfl

/-! A needle inside the value of the key's field: the code's key is shorter. -/

def inked (s : Str) : ℕ := s.countP fun b => !isOws b

theorem inked_append (s t : Str) : inked (s ++ t) = inked s + inked t := List.countP_append

theorem inked_trimOws (s : Str) : inked (trimOws s) = inked s := by
  have hleft : ∀ t : Str, inked (t.dropWhile isOws) = inked t := by
    intro t
    conv_rhs => rw [← List.takeWhile_append_dropWhile (p := isOws) (l := t), inked_append]
    have hblank : inked (t.takeWhile isOws) = 0 := by
      apply List.countP_eq_zero.mpr
      intro b hb
      simp [List.mem_takeWhile_imp hb]
    rw [hblank, Nat.zero_add]
  have hreverse : ∀ t : Str, inked t.reverse = inked t := fun t => List.countP_reverse
  rw [trimOws, List.rdropWhile, hreverse, hleft, hreverse, hleft]

theorem keyNeedle_eq : keyNeedle = keyName ++ [colon] := by decide

/-- In the key's field, the needle is at the start or in the value. -/
theorem isField_needle {l u text : Str} (h : IsField keyName l) (hl : l = u ++ keyNeedle ++ text) :
    u = [] ∨ ∃ v, fieldValue l = v ++ keyNeedle ++ text := by
  obtain ⟨hcolon, hname⟩ := h
  have hlen : (l.takeWhile (· != colon)).length = keyName.length := by
    simpa using congrArg List.length hname
  have hsplit : l.takeWhile (· != colon) ++ colon :: fieldValue l
      = (u ++ keyName) ++ colon :: text := by
    rw [split_colon hcolon, hl, keyNeedle_eq]
    simp
  have hfree : colon ∉ keyName := by decide
  rcases List.append_eq_append_iff.mp hsplit with ⟨v, hv, hvalue⟩ | ⟨v, hv, -⟩
  · match v, hvalue with
    | [], _ =>
      left
      have := congrArg List.length hv
      simp only [List.length_append, List.length_nil] at this
      exact List.length_eq_zero_iff.mp (by omega)
    | b :: v, hvalue =>
      right
      obtain ⟨rfl, htail⟩ := List.cons.inj hvalue
      rcases List.append_eq_append_iff.mp hv with ⟨w, -, hkey⟩ | ⟨w, -, hkey⟩
      · refine absurd ?_ hfree
        rw [hkey]
        simp
      · match w, hkey with
        | [], hkey =>
          refine absurd ?_ hfree
          rw [← List.nil_append keyName, ← hkey]
          exact List.mem_cons_self
        | _ :: w, hkey =>
          refine ⟨w, ?_⟩
          have hv' : v = w ++ keyName := (List.cons.inj hkey).2
          rw [htail, hv', keyNeedle_eq]
          simp
  · left
    have := congrArg List.length hv
    simp only [List.length_append] at this
    exact List.length_eq_zero_iff.mp (by omega)

theorem prefix_of_same {l text : Str} (h : IsField keyName l) (htext : afterNeedle l = some text)
    (hsame : trimOws text = trimOws (fieldValue l)) : keyNeedle <+: l := by
  obtain ⟨u, hl, -⟩ := afterNeedle_eq_some htext
  rcases isField_needle h hl with rfl | ⟨v, hvalue⟩
  · exact ⟨text, hl.symm⟩
  · have hcount := congrArg inked hsame
    rw [inked_trimOws, inked_trimOws, hvalue, inked_append, inked_append] at hcount
    have hneedle : inked keyNeedle = 18 := by decide
    omega

theorem fieldValue_of_starts {l : Str} (h : keyNeedle <+: l) :
    fieldValue l = l.drop keyNeedle.length := by
  obtain ⟨t, rfl⟩ := h
  rw [List.drop_left]
  rfl

theorem exists_hasNeedle {r : Request} (h : ¬∀ l ∈ r.lines, ¬keyNeedle <:+: l) :
    ∃ before l text, HasNeedle r before l ∧ afterNeedle l = some text := by
  cases hsome : r.lines.findSome? afterNeedle with
  | none =>
      refine absurd (fun l hl => ?_) h
      exact afterNeedle_eq_none.mp (List.findSome?_eq_none_iff.mp hsome l hl)
  | some text =>
      obtain ⟨before, l, after, hlines, htext, hbefore⟩ := List.findSome?_eq_some_iff.mp hsome
      have hin : keyNeedle <:+: l := by
        obtain ⟨u, hl, -⟩ := afterNeedle_eq_some htext
        exact ⟨u, text, hl.symm⟩
      exact ⟨before, l, text, ⟨hin, fun m hm => afterNeedle_eq_none.mp (hbefore m hm), after,
        hlines⟩, htext⟩

theorem findKey_of_hasNeedle {r : Request} {before : List Str} {l text : Str}
    (h : HasNeedle r before l) (htext : afterNeedle l = some text) :
    findKey r.bytes = trimOws text := by
  obtain ⟨-, hbefore, after, hlines⟩ := h
  have hsome : r.lines.findSome? afterNeedle = some text :=
    List.findSome?_eq_some_iff.mpr
      ⟨before, l, after, hlines, htext, fun m hm => afterNeedle_eq_none.mpr (hbefore m hm)⟩
  rw [findKey_bytes, hsome]
  rfl

theorem findKey_of_aligned {r : Request} (h : Aligned r) : findKey r.bytes = keyValue r := by
  obtain ⟨before, l, hneedle, hfield, hpre⟩ := h
  obtain ⟨after, hlines⟩ := hneedle.2.2
  rw [findKey_of_hasNeedle hneedle (afterNeedle_of_starts hpre),
    keyValue_of_isKeyField hfield hlines, fieldValue_of_starts hpre]

/-- A client whose key is found is answered, and its frames are read from behind its request. -/
theorem handshake_bytes (r : Request) (hlen : r.bytes.length ≤ maxRequest)
    (hkey : findKey r.bytes ≠ []) (following : List UInt8) :
    handshake (r.bytes ++ following) = (some (handshakeResponse (findKey r.bytes)), following) := by
  rw [handshake, parseWsKey_bytes r hlen following]
  simp only [List.isEmpty_eq_false_iff.mpr hkey]
  rfl

/-- The search finds the key of a request, and leaves the bytes after it, in just these requests. -/
theorem parse_ws_key_iff (r : Request) (hlen : r.bytes.length ≤ maxRequest)
    (following : List UInt8) :
    parseWsKey (r.bytes ++ following) = (keyValue r, following)
      ↔ Aligned r ∨ Absent r ∨ SameElsewhere r := by
  rw [parseWsKey_bytes r hlen following, Prod.mk.injEq, and_iff_left rfl]
  constructor
  · intro hkey
    by_cases hnone : ∀ l ∈ r.lines, ¬keyNeedle <:+: l
    · rw [findKey_bytes, List.findSome?_eq_none_iff.mpr
        (fun l hl => afterNeedle_eq_none.mpr (hnone l hl))] at hkey
      exact .inr (.inl ⟨hnone, hkey.symm⟩)
    · obtain ⟨before, l, text, hneedle, htext⟩ := exists_hasNeedle hnone
      rw [findKey_of_hasNeedle hneedle htext] at hkey
      by_cases hfield : IsKeyField r before l
      · obtain ⟨after, hlines⟩ := hneedle.2.2
        rw [keyValue_of_isKeyField hfield hlines] at hkey
        exact .inl ⟨before, l, hneedle, hfield, prefix_of_same hfield.1 htext hkey⟩
      · exact .inr (.inr ⟨before, l, text, hneedle, hfield, htext, hkey⟩)
  · rintro (haligned | ⟨hnone, hvalue⟩ | ⟨before, l, text, hneedle, -, htext, hsame⟩)
    · exact findKey_of_aligned haligned
    · rw [findKey_bytes, hvalue, List.findSome?_eq_none_iff.mpr
        (fun l hl => afterNeedle_eq_none.mpr (hnone l hl))]
      rfl
    · rw [findKey_of_hasNeedle hneedle htext, hsame]

def upgradeRequest : Request where
  requestLine := lit "GET / HTTP/1.1"
  fields := [lit "Host: localhost", lit "Sec-WebSocket-Key: abc"]
  requestLine_isLine := by decide
  fields_isLine := by decide

theorem parse_ws_key_upgrade :
    parseWsKey (upgradeRequest.bytes ++ [0x81, 0x00]) = (lit "abc", [0x81, 0x00]) := by
  have haligned : Aligned upgradeRequest :=
    ⟨[lit "GET / HTTP/1.1", lit "Host: localhost"], lit "Sec-WebSocket-Key: abc",
      ⟨⟨[], lit " abc", by decide⟩, (by
        intro m hm
        rw [← afterNeedle_eq_none]
        revert m
        decide), [], rfl⟩,
      ⟨by decide, [lit "Host: localhost"], rfl, by decide⟩, by decide⟩
  exact (parse_ws_key_iff upgradeRequest (by decide) [0x81, 0x00]).mpr (.inl haligned)

/-- The same request, with the field's name in lower case. -/
def lowerCaseRequest : Request where
  requestLine := lit "GET / HTTP/1.1"
  fields := [lit "Host: localhost", lit "sec-websocket-key: abc"]
  requestLine_isLine := by decide
  fields_isLine := by decide

theorem parse_ws_key_case :
    ¬∀ r : Request, r.bytes.length ≤ maxRequest → ∀ following : List UInt8,
      parseWsKey (r.bytes ++ following) = (keyValue r, following) := by
  intro hall
  have hlower := hall lowerCaseRequest (by decide) []
  revert hlower
  decide +kernel

end Mawmaw.Pub
