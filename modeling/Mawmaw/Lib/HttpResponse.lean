import Mawmaw.Lib.DecimalText
import Mawmaw.Lib.HttpRequest

/-!
# HTTP responses as bytes

A status line and field lines, each ended by CR LF, a blank line, and a body whose length the fields
give.

* `readLines` : the lines up to the first empty one, and what follows; `readLines_encFields`;
* `Message`, `readMessage` : a response as a client reads it;
* `readMessage_of_length` : a message whose length field tells the length of its body;
* `readMessage_append` : a message read from a text is read from all that begin with it.
-/

namespace Mawmaw.Lib

theorem IsLine.of_not_mem {l : Str} (h : (10 : UInt8) ∉ l) : IsLine l := fun j hj =>
  h (List.mem_of_mem_drop (hj.subset (show (10 : UInt8) ∈ crlf by decide)))

/-- The lines up to the first empty one, at most `n` of them. -/
def readLines : Nat → Str → Option (List Str × Str)
  | 0, _ => none
  | n + 1, s =>
    match findSub crlf s with
    | none => none
    | some 0 => some ([], s.drop 2)
    | some (i + 1) => (readLines n (s.drop (i + 3))).map fun r => (s.take (i + 1) :: r.1, r.2)

theorem readLines_encFields {ls : List Str} (hls : ∀ l ∈ ls, IsLine l ∧ l ≠ []) (rest : Str)
    {n : Nat} (hn : ls.length < n) : readLines n (encFields ls ++ rest) = some (ls, rest) := by
  induction ls generalizing n with
  | nil =>
      obtain ⟨n, rfl⟩ := Nat.exists_eq_succ_of_ne_zero (Nat.ne_of_gt hn)
      have hline : findSub crlf ([] ++ crlf ++ rest) = some 0 :=
        IsLine.findSub_crlf (l := []) (by decide) rest
      rw [readLines, show encFields [] = [] ++ crlf from rfl, hline]
      rfl
  | cons l ls ih =>
      rw [List.forall_mem_cons] at hls
      obtain ⟨n, rfl⟩ := Nat.exists_eq_succ_of_ne_zero (Nat.ne_of_gt (Nat.zero_lt_of_lt hn))
      obtain ⟨k, hk⟩ := Nat.exists_eq_succ_of_ne_zero
        (Nat.ne_of_gt (List.length_pos_of_ne_nil hls.1.2))
      have hsplit : encFields (l :: ls) ++ rest = l ++ crlf ++ (encFields ls ++ rest) := by
        rw [encFields_cons, List.append_assoc]
      have hfind := hls.1.1.findSub_crlf (encFields ls ++ rest)
      rw [hk] at hfind
      have htake : (l ++ crlf ++ (encFields ls ++ rest)).take (k + 1) = l := by
        rw [List.append_assoc, List.take_left' hk]
      have hdrop : (l ++ crlf ++ (encFields ls ++ rest)).drop (k + 3) = encFields ls ++ rest := by
        refine List.drop_left' ?_
        rw [List.length_append, hk, crlf_length]
      rw [hsplit, readLines, hfind]
      dsimp only
      rw [htake, hdrop, ih hls.2 (by rw [List.length_cons] at hn; omega)]
      rfl

/-- A response: what stands before the body, and the body. -/
structure Message where
  statusLine : Str
  fields : List Str
  body : Str
  deriving DecidableEq, Repr

/-- The length the fields give for the body. -/
def contentLength (fields : List Str) : Option Nat :=
  ((fields.find? fun l => decide (IsField (lit "Content-Length") l)).bind
    fun l => readNumeral (fieldValue l)).map (·.2)

/-- The response at the beginning of a text, once all of it is there. -/
def readMessage (s : Str) : Option Message :=
  match readLines (s.length + 1) s with
  | some (statusLine :: fields, rest) =>
    match contentLength fields with
    | some n => if n ≤ rest.length then some ⟨statusLine, fields, rest.take n⟩ else none
    | none => none
  | _ => none

theorem length_le_encFields (ls : List Str) : ls.length ≤ (encFields ls).length := by
  induction ls with
  | nil => exact Nat.zero_le _
  | cons l ls ih =>
      rw [encFields_cons, List.length_append, List.length_append, crlf_length, List.length_cons]
      omega

theorem readMessage_of_length {statusLine : Str} {fields : List Str} {body : Str} (more : Str)
    (hstatus : IsLine statusLine ∧ statusLine ≠ []) (hfields : ∀ l ∈ fields, IsLine l ∧ l ≠ [])
    (hlength : contentLength fields = some body.length) :
    readMessage (encFields (statusLine :: fields) ++ (body ++ more))
      = some ⟨statusLine, fields, body⟩ := by
  have hlines : ∀ l ∈ statusLine :: fields, IsLine l ∧ l ≠ [] :=
    List.forall_mem_cons.mpr ⟨hstatus, hfields⟩
  have hlen := length_le_encFields (statusLine :: fields)
  unfold readMessage
  rw [readLines_encFields hlines (body ++ more) (by rw [List.length_append]; omega)]
  dsimp only
  rw [hlength]
  dsimp only
  rw [if_pos (by rw [List.length_append]; omega), List.take_left' rfl]

/-! ## Beginnings -/

theorem findSub_crlf_append {s : Str} {i : Nat} (h : findSub crlf s = some i) (u : Str) :
    findSub crlf (s ++ u) = some i := by
  obtain ⟨hpat, hfirst⟩ := findSub_eq_some.mp h
  have hlen : i + 2 ≤ s.length := by
    have := hpat.length_le
    rw [crlf_length, List.length_drop] at this
    omega
  refine findSub_eq_some.mpr ⟨?_, fun j hj hpre => hfirst j hj ?_⟩
  · rw [List.drop_append_of_le_length (by omega)]
    exact hpat.trans (List.prefix_append _ _)
  · rw [List.drop_append_of_le_length (by omega)] at hpre
    refine List.prefix_of_prefix_length_le hpre (List.prefix_append _ _) ?_
    rw [crlf_length, List.length_drop]
    omega

theorem readLines_append {n : Nat} {s : Str} {ls : List Str} {rest : Str}
    (h : readLines n s = some (ls, rest)) (m : Nat) (u : Str) :
    readLines (n + m) (s ++ u) = some (ls, rest ++ u) := by
  induction n generalizing s ls with
  | zero => cases h
  | succ n ih =>
      rw [Nat.add_right_comm]
      unfold readLines at h ⊢
      cases hfind : findSub crlf s with
      | none =>
          rw [hfind] at h
          cases h
      | some i =>
          have hlen : i + 2 ≤ s.length := by
            have := (findSub_eq_some.mp hfind).1.length_le
            rw [crlf_length, List.length_drop] at this
            omega
          rw [findSub_crlf_append hfind]
          rw [hfind] at h
          cases i with
          | zero =>
              obtain ⟨rfl, rfl⟩ := Prod.mk.inj (Option.some.inj h)
              dsimp only
              rw [List.drop_append_of_le_length hlen]
          | succ i =>
              dsimp only at h ⊢
              obtain ⟨⟨ls', rest'⟩, hrest, heq⟩ := Option.map_eq_some_iff.mp h
              obtain ⟨rfl, rfl⟩ := Prod.mk.inj heq
              rw [List.drop_append_of_le_length hlen, List.take_append_of_le_length (by omega),
                ih hrest]
              rfl

theorem readMessage_append {s : Str} {m : Message} (h : readMessage s = some m) (u : Str) :
    readMessage (s ++ u) = some m := by
  unfold readMessage at h ⊢
  cases hlines : readLines (s.length + 1) s with
  | none =>
      rw [hlines] at h
      cases h
  | some r =>
      obtain ⟨ls, rest⟩ := r
      have hlonger : readLines ((s ++ u).length + 1) (s ++ u) = some (ls, rest ++ u) := by
        rw [List.length_append, Nat.add_right_comm]
        exact readLines_append hlines u.length u
      rw [hlonger]
      rw [hlines] at h
      cases ls with
      | nil => cases h
      | cons statusLine fields =>
          dsimp only at h ⊢
          cases hlength : contentLength fields with
          | none =>
              rw [hlength] at h
              cases h
          | some n =>
              rw [hlength] at h
              dsimp only at h ⊢
              split at h
              · rename_i hle
                rw [if_pos (by rw [List.length_append]; omega), List.take_append_of_le_length hle]
                exact h
              · cases h

end Mawmaw.Lib
