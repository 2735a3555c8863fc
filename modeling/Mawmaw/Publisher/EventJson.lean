import Mathlib.Data.List.Nodup
import Mawmaw.Lib.Json
import Mawmaw.Publisher.Base64

/-!
# The JSON text of an event

* `ascii` : the code units of an ASCII text; `isNumeral_natStr` : what a stream writes for a number;
* `GivesBack`, `FaithfulJson` : the text of an event is an object, and its members are the event's;
* `Unescaped` : the identifiers that stand for themselves between quotes;
* `faithful_json_iff` : the text is faithful for just these.
-/

namespace Mawmaw.Pub
open Mawmaw.Lib Mawmaw.Core

variable {P : Nat}

/-- The code units of an ASCII text. -/
def ascii (s : Str) : Json.Text := s.map UInt8.toUInt16

theorem ascii_append (s t : Str) : ascii (s ++ t) = ascii s ++ ascii t := List.map_append

/-! ## What a reader gets -/

/-- Whichever member of the name a reader takes, its value is `v`. -/
def Gives (ms : List (Json.Text × Json)) (name : Str) (v : Json) : Prop :=
  ∀ w, (ascii name, w) ∈ ms ↔ w = v

structure GivesBack (ms : List (Json.Text × Json)) (ev : Event P) : Prop where
  ts : Gives ms (lit "ts") (.number (ev.timestampNs.toNat : ℚ))
  seq : Gives ms (lit "seq") (.number (ev.sequence.toNat : ℚ))
  lineage : Gives ms (lit "lineage") (.number (ev.lineageDepth.toNat : ℚ))
  stream : Gives ms (lit "stream") (.string (ascii ev.stream))
  schema : Gives ms (lit "schema") (.string (ascii ev.schema))
  payloadSize : Gives ms (lit "payload_size") (.number (ev.payloadSize.toNat : ℚ))
  payload : ∃ text, Gives ms (lit "payload_b64") (.string (ascii text))
    ∧ Base64.decode text = some ev.bytes

/-- The text of the event is a value, an object that gives the event back. -/
def FaithfulJson (ev : Event P) : Prop :=
  (∃ j, Json.Parses (ascii (toJson ev)) j)
    ∧ ∀ j, Json.Parses (ascii (toJson ev)) j → ∃ ms, j = .object ms ∧ GivesBack ms ev

/-- No quote, backslash or control character. -/
def Unescaped (s : Str) : Prop := ∀ b ∈ s, 32 ≤ b ∧ b ≠ 34 ∧ b ≠ 92

instance (s : Str) : Decidable (Unescaped s) := List.decidableBAll _ s

theorem plain_ascii {s : Str} : (∀ c ∈ ascii s, Json.Plain c) ↔ Unescaped s := by
  have hbyte : ∀ b : UInt8, Json.Plain b.toUInt16 ↔ 32 ≤ b ∧ b ≠ 34 ∧ b ≠ 92 := by
    intro b
    simp only [Json.Plain, Json.quote, Json.backslash, UInt16.le_iff_toNat_le, UInt8.le_iff_toNat_le,
      ne_eq, ← UInt16.toNat_inj, ← UInt8.toNat_inj, UInt8.toNat_toUInt16]
    rfl
  rw [ascii, List.forall_mem_map]
  exact forall₂_congr fun b _ => hbyte b

/-! ## Numbers -/

theorem digit_ascii {k : Nat} (h : k < 10) :
    ∃ d, ascii (natStr k) = [d] ∧ Json.isDigit d = true ∧ d.toNat - 48 = k ∧ (d = 48 → k = 0) := by
  have hall : ∀ i : Fin 10, Json.isDigit (UInt8.ofNat (48 + i.val)).toUInt16 = true
      ∧ (UInt8.ofNat (48 + i.val)).toUInt16.toNat - 48 = i.val
      ∧ ((UInt8.ofNat (48 + i.val)).toUInt16 = 48 → i.val = 0) := by decide
  rw [natStr_of_lt h]
  exact ⟨_, rfl, hall ⟨k, h⟩⟩

theorem isNumeral_natStr (n : Nat) :
    Json.IsNumeral (ascii (natStr n)) ∧ Json.natVal (ascii (natStr n)) = n := by
  induction n using Nat.strong_induction_on with
  | _ n ih =>
    by_cases hn : n < 10
    · obtain ⟨d, htext, hdigit, hval, hzero⟩ := digit_ascii hn
      rw [htext]
      refine ⟨⟨by simpa using hdigit, List.cons_ne_nil d [], ?_⟩, ?_⟩
      · by_cases hd : d = 48
        · left
          rw [hd]
        · right
          simpa using hd
      · rw [← hval]
        exact Nat.zero_add _
    · obtain ⟨hnumeral, hhigh⟩ := ih (n / 10) (by omega)
      obtain ⟨d, htext, hdigit, hval, -⟩ := digit_ascii (Nat.mod_lt n (by decide : 0 < 10))
      have happend : ascii (natStr n) = ascii (natStr (n / 10)) ++ [d] := by
        rw [natStr_of_le (by omega), ascii_append, htext]
      rw [happend]
      refine ⟨⟨?_, by simp, ?_⟩, ?_⟩
      · rw [List.forall_mem_append]
        exact ⟨hnumeral.digits, by simpa using hdigit⟩
      · right
        rcases hnumeral.first with hzero | hfirst
        · rw [hzero] at hhigh
          have : n / 10 = 0 := hhigh.symm
          omega
        · obtain ⟨c, cs, hcs⟩ := List.exists_cons_of_ne_nil hnumeral.ne_nil
          rw [hcs] at hfirst ⊢
          exact hfirst
      · have hsnoc : Json.natVal (ascii (natStr (n / 10)) ++ [d])
            = 10 * Json.natVal (ascii (natStr (n / 10))) + (d.toNat - 48) := by
          rw [Json.natVal, List.foldl_append]
          rfl
        rw [hsnoc, hhigh, hval]
        omega

/-! ## The text -/

/-- `value` with the name of the member before it. -/
def member (name : Str) (value : Json.Text) : Json.Text := Json.nameText (ascii name) ++ value

def quoted (s : Str) : Json.Text := Json.quote :: (ascii s ++ [Json.quote])

/-- The text from the last comma but one on. -/
def payloadText (ev : Event P) : Json.Text :=
  member (lit "payload_size") (ascii (natStr ev.payloadSize.toNat))
    ++ Json.comma :: (member (lit "payload_b64") (quoted (base64Encode ev.bytes)) ++ [125])

def schemaText (ev : Event P) : Json.Text :=
  member (lit "schema") (quoted ev.schema) ++ Json.comma :: payloadText ev

def streamText (ev : Event P) : Json.Text :=
  member (lit "stream") (quoted ev.stream) ++ Json.comma :: schemaText ev

theorem ascii_toJson (ev : Event P) :
    ascii (toJson ev) = 123 :: (member (lit "ts") (ascii (natStr ev.timestampNs.toNat))
      ++ Json.comma :: (member (lit "seq") (ascii (natStr ev.sequence.toNat))
      ++ Json.comma :: (member (lit "lineage") (ascii (natStr ev.lineageDepth.toNat))
      ++ Json.comma :: streamText ev))) := by
  have hopen : ascii (lit "\x7b") = [123] := by decide
  have hclose : ascii (lit "\x7d") = [125] := by decide
  have hcomma : ascii (lit ",") = [Json.comma] := by decide
  have hquote : ascii (lit "\"") = [Json.quote] := by decide
  have hboth : ascii (lit "\",") = [Json.quote, Json.comma] := by decide
  have hts : ascii (lit "\"ts\":") = Json.nameText (ascii (lit "ts")) := by decide
  have hseq : ascii (lit "\"seq\":") = Json.nameText (ascii (lit "seq")) := by decide
  have hlineage : ascii (lit "\"lineage\":") = Json.nameText (ascii (lit "lineage")) := by decide
  have hstream : ascii (lit "\"stream\":\"")
      = Json.nameText (ascii (lit "stream")) ++ [Json.quote] := by decide
  have hschema : ascii (lit "\"schema\":\"")
      = Json.nameText (ascii (lit "schema")) ++ [Json.quote] := by decide
  have hsize : ascii (lit "\"payload_size\":") = Json.nameText (ascii (lit "payload_size")) := by
    decide
  have hpayload : ascii (lit "\"payload_b64\":\"")
      = Json.nameText (ascii (lit "payload_b64")) ++ [Json.quote] := by decide
  unfold toJson
  simp only [ascii_append, hopen, hclose, hcomma, hquote, hboth, hts, hseq, hlineage, hstream,
    hschema, hsize, hpayload, streamText, schemaText, payloadText, member, quoted,
    List.append_assoc, List.cons_append, List.nil_append]

/-! ## Members -/

section Members
variable {name : Str} (hname : Unescaped name) (n : Nat)
include hname

theorem readMember_number (m : Nat) (s : Json.Text) :
    Json.readMember (Json.readValue (n + 1)) (member name (ascii (natStr m)) ++ Json.comma :: s)
      = some ((ascii name, .number (m : ℚ)), Json.comma :: s) := by
  obtain ⟨hnumeral, hvalue⟩ := isNumeral_natStr m
  rw [member, List.append_assoc, Json.readMember_name (plain_ascii.mpr hname),
    Json.readValue_number hnumeral, hvalue]
  rfl

/-- A string is read by `readString`, from behind its quote on. -/
theorem readMember_string (s t : Json.Text) :
    Json.readMember (Json.readValue (n + 1)) (member name (Json.quote :: s) ++ t)
      = (Json.readString (s ++ t)).map fun r => ((ascii name, .string r.1), r.2) := by
  rw [member, List.append_assoc, Json.readMember_name (plain_ascii.mpr hname), List.cons_append,
    Json.readValue_string, Option.map_map]
  rfl

theorem readMember_quoted {s : Str} (hs : Unescaped s) (t : Json.Text) :
    Json.readMember (Json.readValue (n + 1)) (member name (quoted s) ++ t)
      = some ((ascii name, .string (ascii s)), t) := by
  rw [quoted, readMember_string hname, List.append_assoc, List.singleton_append,
    Json.readString_self (plain_ascii.mpr hs)]
  rfl

/-- Where the string of a member is given back, it stands for itself. -/
theorem unescaped_of_gives {s : Str} {k : Nat} {more t : Json.Text}
    {ms : List (Json.Text × Json)}
    (h : Json.readItems (Json.readMember (Json.readValue (n + 1))) 125 k
      (member name (quoted s) ++ Json.comma :: Json.quote :: more) = some (ms, t))
    (hgives : ∀ w, (ascii name, w) ∈ ms → w = .string (ascii s)) : Unescaped s := by
  obtain ⟨a, u, hitem, hmem⟩ := Json.readItems_head h
  rw [quoted, readMember_string hname, Option.map_eq_some_iff] at hitem
  obtain ⟨⟨v, rest⟩, hread, heq⟩ := hitem
  rw [Prod.mk.injEq] at heq
  obtain ⟨rfl, rfl⟩ := heq
  have hv : v = ascii s := Json.string.inj (hgives _ hmem)
  rw [hv, List.append_assoc] at hread
  exact plain_ascii.mp (Json.plain_of_quoted hread)

end Members

/-! ## The object -/

def headMembers (ev : Event P) : List (Json.Text × Json) :=
  [(ascii (lit "ts"), .number (ev.timestampNs.toNat : ℚ)),
    (ascii (lit "seq"), .number (ev.sequence.toNat : ℚ)),
    (ascii (lit "lineage"), .number (ev.lineageDepth.toNat : ℚ))]

def lastMembers (ev : Event P) : List (Json.Text × Json) :=
  [(ascii (lit "payload_size"), .number (ev.payloadSize.toNat : ℚ)),
    (ascii (lit "payload_b64"), .string (ascii (base64Encode ev.bytes)))]

theorem readValue_toJson (ev : Event P) (n : Nat) :
    Json.readValue (n + 5) (ascii (toJson ev))
      = (Json.readItems (Json.readMember (Json.readValue (n + 4))) 125 (n + 1) (streamText ev)).map
        fun r => (.object (headMembers ev ++ r.1), r.2) := by
  have hlist : ∀ (name : Str) (v t : Json.Text),
      Json.readList (Json.readMember (Json.readValue (n + 4))) 125 (n + 4) (member name v ++ t)
        = Json.readItems (Json.readMember (Json.readValue (n + 4))) 125 (n + 4) (member name v ++ t) :=
    fun _ _ _ => rfl
  rw [ascii_toJson, Json.readValue_object, hlist,
    Json.readItems_comma (readMember_number (by decide) _ _ _),
    Json.readItems_comma (readMember_number (by decide) _ _ _),
    Json.readItems_comma (readMember_number (by decide) _ _ _), Option.map_map, Option.map_map,
    Option.map_map]
  rfl

/-- The members of an event whose identifiers need no escapes. -/
def eventMembers (ev : Event P) : List (Json.Text × Json) :=
  headMembers ev ++ (ascii (lit "stream"), .string (ascii ev.stream))
    :: (ascii (lit "schema"), .string (ascii ev.schema)) :: lastMembers ev

theorem gives_of_mem {ms : List (Json.Text × Json)} (hnodup : (ms.map Prod.fst).Nodup) {name : Str}
    {v : Json} (h : (ascii name, v) ∈ ms) : Gives ms name v := by
  intro w
  constructor
  · intro hw
    exact (Prod.mk.inj (List.inj_on_of_nodup_map hnodup hw h rfl)).2
  · rintro rfl
    exact h

theorem givesBack_eventMembers (ev : Event P) : GivesBack (eventMembers ev) ev := by
  have hnodup : ((eventMembers ev).map Prod.fst).Nodup := by
    have hnames : (eventMembers ev).map Prod.fst
        = [ascii (lit "ts"), ascii (lit "seq"), ascii (lit "lineage"), ascii (lit "stream"),
          ascii (lit "schema"), ascii (lit "payload_size"), ascii (lit "payload_b64")] := rfl
    rw [hnames]
    decide
  have hmem : ∀ m ∈ eventMembers ev, ∀ name, m.1 = ascii name → Gives (eventMembers ev) name m.2 := by
    intro m hm name hname
    apply gives_of_mem hnodup
    rwa [← hname]
  simp only [eventMembers, headMembers, lastMembers, List.cons_append, List.nil_append,
    List.forall_mem_cons] at hmem
  obtain ⟨hts, hseq, hlineage, hstream, hschema, hsize, hpayload, -⟩ := hmem
  exact ⟨hts _ rfl, hseq _ rfl, hlineage _ rfl, hstream _ rfl, hschema _ rfl, hsize _ rfl,
    base64Encode ev.bytes, hpayload _ rfl, decode_base64Encode ev.bytes⟩

theorem unescaped_base64Encode (bs : List UInt8) : Unescaped (base64Encode bs) := by
  obtain ⟨body, htext, hbody⟩ := padded_base64Encode bs
  have halphabet : Unescaped Base64.alphabet := by decide
  rw [htext]
  intro b hb
  rcases List.mem_append.mp hb with hmem | hmem
  · exact halphabet b (hbody b hmem)
  · rw [List.eq_of_mem_replicate hmem]
    decide

theorem readItems_payloadText (ev : Event P) (n k : Nat) :
    Json.readItems (Json.readMember (Json.readValue (n + 1))) 125 (k + 2) (payloadText ev)
      = some (lastMembers ev, []) := by
  rw [payloadText, Json.readItems_comma (readMember_number (by decide) _ _ _),
    Json.readItems_close
      (readMember_quoted (by decide) n (unescaped_base64Encode ev.bytes) [125]) rfl (by decide)]
  rfl

/-- Past a string that needs no escapes the reader goes on behind its comma. -/
theorem readItems_quoted {name s : Str} (hname : Unescaped name) (hs : Unescaped s) (n k : Nat)
    (t : Json.Text) :
    Json.readItems (Json.readMember (Json.readValue (n + 1))) 125 (k + 1)
        (member name (quoted s) ++ Json.comma :: t)
      = (Json.readItems (Json.readMember (Json.readValue (n + 1))) 125 k t).map
        fun r => ((ascii name, .string (ascii s)) :: r.1, r.2) :=
  Json.readItems_comma (readMember_quoted hname n hs _)

theorem parses_eventMembers {ev : Event P} (hstream : Unescaped ev.stream)
    (hschema : Unescaped ev.schema) :
    Json.Parses (ascii (toJson ev)) (.object (eventMembers ev)) := by
  refine ⟨8, [], ?_, rfl⟩
  rw [readValue_toJson, streamText, readItems_quoted (by decide) hstream, schemaText,
    readItems_quoted (by decide) hschema, readItems_payloadText ev 6 0]
  rfl

/-- A reader that gives the identifiers back has found them with nothing to escape. -/
theorem unescaped_of_parses {ev : Event P} {ms : List (Json.Text × Json)}
    (hparses : Json.Parses (ascii (toJson ev)) (.object ms)) (hgives : GivesBack ms ev) :
    Unescaped ev.stream ∧ Unescaped ev.schema := by
  obtain ⟨n, rest, hread, -⟩ := hparses
  have hmore := Json.readValue_extends (Nat.le_add_right n 8) hread
  rw [readValue_toJson, Option.map_eq_some_iff] at hmore
  obtain ⟨⟨ms', t⟩, hitems, heq⟩ := hmore
  have hms : headMembers ev ++ ms' = ms := Json.object.inj (Prod.mk.inj heq).1
  have hmem : ∀ m ∈ ms', m ∈ ms := by
    intro m hm
    rw [← hms]
    exact List.mem_append_right _ hm
  have hstream : Unescaped ev.stream :=
    unescaped_of_gives (by decide) _ hitems fun w hw => (hgives.stream w).mp (hmem _ hw)
  rw [streamText, readItems_quoted (by decide) hstream, Option.map_eq_some_iff] at hitems
  obtain ⟨⟨ms'', t'⟩, hitems', heq'⟩ := hitems
  have hcons : (ascii (lit "stream"), Json.string (ascii ev.stream)) :: ms'' = ms' :=
    (Prod.mk.inj heq').1
  refine ⟨hstream, unescaped_of_gives (by decide) _ hitems' fun w hw => ?_⟩
  apply (hgives.schema w).mp
  apply hmem
  rw [← hcons]
  exact List.mem_cons_of_mem _ hw

theorem unescaped_of_faithful {ev : Event P} (h : FaithfulJson ev) :
    Unescaped ev.stream ∧ Unescaped ev.schema := by
  obtain ⟨⟨j, hparses⟩, hgives⟩ := h
  obtain ⟨ms, rfl, hback⟩ := hgives j hparses
  exact unescaped_of_parses hparses hback

/-- The text of an event is faithful for just the identifiers that need no escapes. -/
theorem faithful_json_iff (ev : Event P) :
    FaithfulJson ev ↔ Unescaped ev.stream ∧ Unescaped ev.schema := by
  refine ⟨unescaped_of_faithful, ?_⟩
  rintro ⟨hstream, hschema⟩
  have hparses := parses_eventMembers hstream hschema
  refine ⟨⟨_, hparses⟩, fun j hj => ⟨eventMembers ev, hj.unique hparses, ?_⟩⟩
  exact givesBack_eventMembers ev

/-- A stream with a quote in its name. -/
def quotedEvent : Event 8 := ({} : Event 8).setStream (lit "a\"b")

theorem json_not_faithful : ¬∀ ev : Event 8, FaithfulJson ev := by
  intro hall
  have hescape := (unescaped_of_faithful (hall quotedEvent)).1
  revert hescape
  decide +kernel

end Mawmaw.Pub
