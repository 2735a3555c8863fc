import Mathlib.Algebra.Field.Rat
import Mathlib.Data.List.TakeWhile

/-!
# JSON texts

The grammar of RFC 8259 on UTF-16 code units, which strings are made of too: an escape with four
hexadecimal digits is one of them.

* `readValue` : a value at the start of a text, to a depth and a number of members or elements;
  `Json.Parses` : at some of them, the value is all of the text;
* `Parses.unique` : a text has at most one value;
* `Spells`, `readString_iff` : what stands between the quotes of a string;
* `Spells.plain_of_quoted` : a string that stands for itself has nothing in it to escape.
-/

namespace Mawmaw.Lib

abbrev Json.Text := List UInt16

inductive Json
  | null
  | bool (b : Bool)
  | number (q : ℚ)
  | string (s : Json.Text)
  | array (vs : List Json)
  | object (ms : List (Json.Text × Json))

namespace Json

/-! ## Strings -/

def quote : UInt16 := 34

def backslash : UInt16 := 92

def comma : UInt16 := 44

/-- What a backslash and a letter stand for. -/
def escape (c : UInt16) : Option UInt16 :=
  if c = 34 ∨ c = 92 ∨ c = 47 then some c
  else if c = 98 then some 8
  else if c = 102 then some 12
  else if c = 110 then some 10
  else if c = 114 then some 13
  else if c = 116 then some 9
  else none

def hexVal (c : UInt16) : Option Nat :=
  if 48 ≤ c ∧ c ≤ 57 then some (c.toNat - 48)
  else if 65 ≤ c ∧ c ≤ 70 then some (c.toNat - 55)
  else if 97 ≤ c ∧ c ≤ 102 then some (c.toNat - 87)
  else none

def hexUnit (x y z w : UInt16) : Option UInt16 := do
  let x ← hexVal x
  let y ← hexVal y
  let z ← hexVal z
  let w ← hexVal w
  return UInt16.ofNat (((x * 16 + y) * 16 + z) * 16 + w)

/-- The string whose opening quote has been read, and what follows its closing quote. -/
def readString : Text → Option (Text × Text)
  | [] => none
  | c :: s =>
    if c = quote then some ([], s)
    else if c = backslash then
      match s with
      | [] => none
      | e :: s =>
        if e = 117 then
          match s with
          | x :: y :: z :: w :: s =>
            (hexUnit x y z w).bind fun u => (readString s).map fun r => (u :: r.1, r.2)
          | _ => none
        else (escape e).bind fun u => (readString s).map fun r => (u :: r.1, r.2)
    else if c < 32 then none
    else (readString s).map fun r => (c :: r.1, r.2)

/-! ## Numbers -/

def isDigit (c : UInt16) : Bool := 48 ≤ c && c ≤ 57

def natVal (ds : Text) : Nat := ds.foldl (fun n d => 10 * n + (d.toNat - 48)) 0

/-- One digit or more. -/
def readDigits (s : Text) : Option (Text × Text) :=
  if s.takeWhile isDigit = [] then none else some (s.takeWhile isDigit, s.dropWhile isDigit)

/-- A zero, or digits. -/
def readInt : Text → Option (Nat × Text)
  | [] => none
  | c :: s =>
    if c = 48 then some (0, s) else (readDigits (c :: s)).map fun r => (natVal r.1, r.2)

def readFrac : Text → Option (Text × Text)
  | [] => some ([], [])
  | c :: s => if c = 46 then readDigits s else some ([], c :: s)

def readSigned : Text → Option (Int × Text)
  | [] => none
  | c :: s =>
    if c = 45 then (readDigits s).map fun r => (-(natVal r.1 : Int), r.2)
    else (readDigits (if c = 43 then s else c :: s)).map fun r => ((natVal r.1 : Int), r.2)

def readExp : Text → Option (Int × Text)
  | [] => some (0, [])
  | c :: s => if c = 101 ∨ c = 69 then readSigned s else some (0, c :: s)

def readUnsigned (s : Text) : Option (ℚ × Text) :=
  (readInt s).bind fun (n, s) =>
    (readFrac s).bind fun (frac, s) =>
      (readExp s).map fun (e, s) =>
        (((n * 10 ^ frac.length + natVal frac : Nat) : ℚ) * 10 ^ (e - frac.length), s)

def readNumber : Text → Option (ℚ × Text)
  | [] => none
  | c :: s =>
    if c = 45 then (readUnsigned s).map fun r => (-r.1, r.2) else readUnsigned (c :: s)

/-! ## Values -/

def skipWs (s : Text) : Text := s.dropWhile fun c => c == 32 || c == 9 || c == 10 || c == 13

section Items
variable {α : Type} (item : Text → Option (α × Text)) (close : UInt16)

/-- One item or more, with commas between them, up to the closing bracket; `n` items at most. -/
def readItems : Nat → Text → Option (List α × Text)
  | 0, _ => none
  | n + 1, s =>
    (item s).bind fun (a, s) =>
      match skipWs s with
      | [] => none
      | c :: s =>
        if c = comma then (readItems n s).map fun r => (a :: r.1, r.2)
        else if c = close then some ([a], s)
        else none

def readList (n : Nat) (s : Text) : Option (List α × Text) :=
  match skipWs s with
  | [] => none
  | c :: t => if c = close then some ([], t) else readItems item close n (c :: t)

end Items

def readMember (value : Text → Option (Json × Text)) (s : Text) : Option ((Text × Json) × Text) :=
  match skipWs s with
  | [] => none
  | c :: s =>
    if c = quote then
      (readString s).bind fun (key, s) =>
        match skipWs s with
        | [] => none
        | c :: s => if c = 58 then (value s).map fun r => ((key, r.1), r.2) else none
    else none

def readWord : Text → Option (Json × Text)
  | 110 :: 117 :: 108 :: 108 :: s => some (.null, s)
  | 116 :: 114 :: 117 :: 101 :: s => some (.bool true, s)
  | 102 :: 97 :: 108 :: 115 :: 101 :: s => some (.bool false, s)
  | _ => none

/-- The value at the start of a text, and what follows it. -/
def readValue : Nat → Text → Option (Json × Text)
  | 0, _ => none
  | n + 1, s =>
    match skipWs s with
    | [] => none
    | c :: s =>
      if c = 123 then
        (readList (readMember (readValue n)) 125 n s).map fun r => (.object r.1, r.2)
      else if c = 91 then (readList (readValue n) 93 n s).map fun r => (.array r.1, r.2)
      else if c = quote then (readString s).map fun r => (.string r.1, r.2)
      else (readWord (c :: s)).or ((readNumber (c :: s)).map fun r => (.number r.1, r.2))

def Parses (s : Text) (j : Json) : Prop := ∃ n rest, readValue n s = some (j, rest) ∧ skipWs rest = []

/-! ## One value -/

/-- What one reader reads, the other reads. -/
def Extends {α : Type} (read read' : Text → Option (α × Text)) : Prop :=
  ∀ ⦃s r⦄, read s = some r → read' s = some r

theorem readItems_extends {α : Type} {item item' : Text → Option (α × Text)} {close : UInt16}
    (h : Extends item item') {n m : Nat} (hnm : n ≤ m) :
    Extends (readItems item close n) (readItems item' close m) := by
  induction n generalizing m with
  | zero => exact fun s r hr => absurd hr (Option.some_ne_none r).symm
  | succ n ih =>
      obtain ⟨m, rfl⟩ := Nat.exists_eq_add_of_lt hnm
      intro s r hr
      rw [readItems, Option.bind_eq_some_iff] at hr
      obtain ⟨⟨a, t⟩, hitem, hr⟩ := hr
      rw [readItems, h hitem, Option.bind_some]
      revert hr
      simp only
      cases skipWs t with
      | nil => exact id
      | cons c t =>
          simp only
          by_cases hcomma : c = comma
          · rw [if_pos hcomma, if_pos hcomma, Option.map_eq_some_iff]
            rintro ⟨r', hr', rfl⟩
            rw [ih (Nat.le_add_right n m) hr', Option.map_some]
          · rw [if_neg hcomma, if_neg hcomma]
            exact id

theorem readList_extends {α : Type} {item item' : Text → Option (α × Text)} {close : UInt16}
    (h : Extends item item') {n m : Nat} (hnm : n ≤ m) :
    Extends (readList item close n) (readList item' close m) := by
  intro s r
  rw [readList, readList]
  cases skipWs s with
  | nil => exact id
  | cons c t =>
      simp only
      by_cases hclose : c = close
      · rw [if_pos hclose, if_pos hclose]
        exact id
      · rw [if_neg hclose, if_neg hclose]
        exact fun hr => readItems_extends h hnm hr

theorem readMember_extends {value value' : Text → Option (Json × Text)} (h : Extends value value') :
    Extends (readMember value) (readMember value') := by
  intro s r
  rw [readMember, readMember]
  cases skipWs s with
  | nil => exact id
  | cons c s =>
      simp only
      by_cases hquote : c = quote
      · rw [if_pos hquote, if_pos hquote]
        cases readString s with
        | none => exact id
        | some key =>
            simp only [Option.bind_some]
            cases skipWs key.2 with
            | nil => exact id
            | cons c s =>
                simp only
                by_cases hcolon : c = 58
                · rw [if_pos hcolon, if_pos hcolon, Option.map_eq_some_iff]
                  rintro ⟨r', hr', rfl⟩
                  rw [h hr', Option.map_some]
                · rw [if_neg hcolon, if_neg hcolon]
                  exact id
      · rw [if_neg hquote, if_neg hquote]
        exact id

theorem readValue_extends {n m : Nat} (hnm : n ≤ m) : Extends (readValue n) (readValue m) := by
  induction n generalizing m with
  | zero => exact fun s r hr => absurd hr (Option.some_ne_none r).symm
  | succ n ih =>
      obtain ⟨m, rfl⟩ := Nat.exists_eq_add_of_lt hnm
      have hle : n ≤ n + m := Nat.le_add_right n m
      intro s r
      rw [readValue, readValue]
      cases skipWs s with
      | nil => exact id
      | cons c s =>
          simp only
          split
          · rw [Option.map_eq_some_iff]
            rintro ⟨r', hr', rfl⟩
            rw [readList_extends (readMember_extends (ih hle)) hle hr', Option.map_some]
          · split
            · rw [Option.map_eq_some_iff]
              rintro ⟨r', hr', rfl⟩
              rw [readList_extends (ih hle) hle hr', Option.map_some]
            · exact id

/-- A text has at most one value. -/
theorem Parses.unique {s : Text} {j j' : Json} (h : Parses s j) (h' : Parses s j') : j = j' := by
  obtain ⟨n, rest, hread, -⟩ := h
  obtain ⟨n', rest', hread', -⟩ := h'
  have hboth := readValue_extends (Nat.le_max_left n n') hread
  rw [readValue_extends (Nat.le_max_right n n') hread'] at hboth
  exact (Prod.mk.inj (Option.some.inj hboth)).1.symm

/-! ## What stands between quotes -/

/-- A character that stands for itself. -/
def Plain (c : UInt16) : Prop := 32 ≤ c ∧ c ≠ quote ∧ c ≠ backslash

/-- A text between quotes, and the string it stands for. -/
inductive Spells : Text → Text → Prop
  | nil : Spells [] []
  | plain {c : UInt16} {enc s : Text} (hc : Plain c) (h : Spells enc s) : Spells (c :: enc) (c :: s)
  | escaped {e u : UInt16} {enc s : Text} (hu : escape e = some u) (h : Spells enc s) :
      Spells (backslash :: e :: enc) (u :: s)
  | unit {x y z w u : UInt16} {enc s : Text} (hu : hexUnit x y z w = some u) (h : Spells enc s) :
      Spells (backslash :: 117 :: x :: y :: z :: w :: enc) (u :: s)

theorem readString_quote (rest : Text) : readString (quote :: rest) = some ([], rest) := by
  rw [readString.eq_def]
  simp only [if_true]

theorem readString_plain {c : UInt16} (hc : Plain c) (t : Text) :
    readString (c :: t) = (readString t).map fun r => (c :: r.1, r.2) := by
  have hspace : ¬c < 32 := UInt16.not_lt.mpr hc.1
  rw [readString.eq_def]
  simp only [hc.2.1, hc.2.2, hspace, if_false]

theorem readString_escaped {e u : UInt16} (hu : escape e = some u) (t : Text) :
    readString (backslash :: e :: t) = (readString t).map fun r => (u :: r.1, r.2) := by
  have he : e ≠ 117 := by
    rintro rfl
    have hnone : escape 117 = none := by decide
    rw [hnone] at hu
    cases hu
  have hquote : backslash ≠ quote := by decide
  rw [readString.eq_def]
  simp only [hquote, he, hu, if_false, if_true, Option.bind_some]

theorem readString_unit {x y z w u : UInt16} (hu : hexUnit x y z w = some u) (t : Text) :
    readString (backslash :: 117 :: x :: y :: z :: w :: t)
      = (readString t).map fun r => (u :: r.1, r.2) := by
  have hquote : backslash ≠ quote := by decide
  rw [readString.eq_def]
  simp only [hquote, hu, if_false, if_true, Option.bind_some]

theorem Spells.readString_append {enc s : Text} (h : Spells enc s) (rest : Text) :
    readString (enc ++ quote :: rest) = some (s, rest) := by
  induction h with
  | nil => exact readString_quote rest
  | plain hc _ ih => rw [List.cons_append, readString_plain hc, ih, Option.map_some]
  | escaped hu _ ih =>
      rw [List.cons_append, List.cons_append, readString_escaped hu, ih, Option.map_some]
  | unit hu _ ih =>
      simp only [List.cons_append]
      rw [readString_unit hu, ih, Option.map_some]

theorem map_push {u : UInt16} {s : Text} {o : Option (Text × Text)} {rest : Text}
    (h : (o.map fun r => (u :: r.1, r.2)) = some (s, rest)) :
    ∃ s', s = u :: s' ∧ o = some (s', rest) := by
  rw [Option.map_eq_some_iff] at h
  obtain ⟨⟨s', rest'⟩, ho, heq⟩ := h
  rw [Prod.mk.injEq] at heq
  obtain ⟨rfl, rfl⟩ := heq
  exact ⟨s', rfl, ho⟩

theorem exists_spells {t s rest : Text} (h : readString t = some (s, rest)) :
    ∃ enc, t = enc ++ quote :: rest ∧ Spells enc s := by
  induction t using readString.induct generalizing s with
  | case1 => cases h
  | case2 t =>
      rw [readString_quote, Option.some.injEq, Prod.mk.injEq] at h
      obtain ⟨rfl, rfl⟩ := h
      exact ⟨[], rfl, .nil⟩
  | case3 _ => cases h
  | case4 x y z w t hne ih =>
      cases hu : hexUnit x y z w with
      | none =>
          rw [readString.eq_def] at h
          simp only [hne, hu, if_false, if_true, Option.bind_none, reduceCtorEq] at h
      | some u =>
          rw [readString_unit hu] at h
          obtain ⟨s', rfl, hread⟩ := map_push h
          obtain ⟨enc, rfl, hspells⟩ := ih hread
          exact ⟨backslash :: 117 :: x :: y :: z :: w :: enc, rfl, .unit hu hspells⟩
  | case5 t hshort hne =>
      rw [readString.eq_def] at h
      simp only [hne, if_false, if_true, reduceCtorEq] at h
  | case6 e t he hne ih =>
      cases hu : escape e with
      | none =>
          rw [readString.eq_def] at h
          simp only [hne, he, hu, if_false, if_true, Option.bind_none, reduceCtorEq] at h
      | some u =>
          rw [readString_escaped hu] at h
          obtain ⟨s', rfl, hread⟩ := map_push h
          obtain ⟨enc, rfl, hspells⟩ := ih hread
          exact ⟨backslash :: e :: enc, rfl, .escaped hu hspells⟩
  | case7 c t hquote hback hspace =>
      rw [readString.eq_def] at h
      simp only [hquote, hback, hspace, if_false, if_true, reduceCtorEq] at h
  | case8 c t hquote hback hspace ih =>
      have hc : Plain c := ⟨UInt16.not_lt.mp hspace, hquote, hback⟩
      rw [readString_plain hc] at h
      obtain ⟨s', rfl, hread⟩ := map_push h
      obtain ⟨enc, rfl, hspells⟩ := ih hread
      exact ⟨c :: enc, rfl, .plain hc hspells⟩

theorem readString_iff {t s rest : Text} :
    readString t = some (s, rest) ↔ ∃ enc, t = enc ++ quote :: rest ∧ Spells enc s := by
  refine ⟨exists_spells, ?_⟩
  rintro ⟨enc, rfl, hspells⟩
  exact hspells.readString_append rest

theorem spells_self {s : Text} (h : ∀ c ∈ s, Plain c) : Spells s s := by
  induction s with
  | nil => exact .nil
  | cons c s ih =>
      rw [List.forall_mem_cons] at h
      exact .plain h.1 (ih h.2)

/-- An escape is longer than what it stands for. -/
theorem Spells.shorter_or_plain {enc s : Text} (h : Spells enc s) :
    s.length < enc.length ∨ enc = s ∧ ∀ c ∈ s, Plain c := by
  induction h with
  | nil => exact .inr ⟨rfl, List.forall_mem_nil _⟩
  | plain hc _ ih =>
      rcases ih with hlt | ⟨rfl, hplain⟩
      · exact .inl (Nat.succ_lt_succ hlt)
      · exact .inr ⟨rfl, List.forall_mem_cons.mpr ⟨hc, hplain⟩⟩
  | escaped _ _ ih =>
      left
      rcases ih with hlt | ⟨rfl, -⟩ <;> simp only [List.length_cons] <;> omega
  | unit _ _ ih =>
      left
      rcases ih with hlt | ⟨rfl, -⟩ <;> simp only [List.length_cons] <;> omega

theorem hexUnit_mem {x y z w u : UInt16} (h : hexUnit x y z w = some u) :
    ∀ c ∈ [x, y, z, w], hexVal c ≠ none := by
  intro c hc hnone
  simp only [List.mem_cons, List.not_mem_nil, or_false] at hc
  rcases hc with rfl | rfl | rfl | rfl <;> simp [hexUnit, hnone] at h

theorem split_quote {pre enc p q : Text} (hpre : quote ∉ pre) (h : pre ++ enc = p ++ quote :: q) :
    ∃ p', p = pre ++ p' ∧ enc = p' ++ quote :: q := by
  rcases List.append_eq_append_iff.mp h with ⟨p', hp, henc⟩ | ⟨m, hm, hq⟩
  · exact ⟨p', hp, henc⟩
  · match m, hq with
    | [], hq => exact ⟨[], by rw [hm, List.append_nil, List.append_nil], hq.symm⟩
    | c :: m, hq =>
      refine absurd ?_ hpre
      rw [hm, (List.cons.inj hq).1]
      exact List.mem_append_right p List.mem_cons_self

/-- A quote between the quotes has a backslash before it. -/
theorem Spells.before_quote {enc s : Text} (h : Spells enc s) {p q : Text}
    (henc : enc = p ++ quote :: q) : p.getLast? = some backslash := by
  induction h generalizing p with
  | nil => simp at henc
  | @plain c enc s hc _ ih =>
      have hfree : quote ∉ [c] := by simpa using Ne.symm hc.2.1
      obtain ⟨p', rfl, htail⟩ := split_quote hfree henc
      rw [List.getLast?_append, ih htail]
      rfl
  | escaped _ _ ih =>
      match p, henc with
      | [], henc => exact absurd (List.cons.inj henc).1 (by decide)
      | [b], henc => rw [← (List.cons.inj henc).1]; rfl
      | b :: e :: p, henc =>
        simp only [List.cons_append, List.cons.injEq] at henc
        rw [List.getLast?_cons, List.getLast?_cons, ih henc.2.2]
        rfl
  | @unit x y z w u enc s hu _ ih =>
      have hfree : quote ∉ [backslash, 117, x, y, z, w] := by
        rw [List.mem_cons, List.mem_cons, not_or, not_or]
        refine ⟨by decide, by decide, fun hmem => hexUnit_mem hu quote hmem (by decide)⟩
      obtain ⟨p', rfl, htail⟩ := split_quote hfree henc
      rw [List.getLast?_append, ih htail]
      rfl

theorem getLast_cons {c : UInt16} {s : Text} (h : s.getLast? = some comma) :
    (c :: s).getLast? = some comma := by
  rw [List.getLast?_cons, h]
  rfl

/-- A comma at the end stands for itself. -/
theorem Spells.getLast_comma {enc s : Text} (h : Spells enc s) (hlast : enc.getLast? = some comma) :
    s.getLast? = some comma := by
  have hends : ∀ {c : UInt16} {t : Text}, (c :: t).getLast? = some comma →
      t = [] ∧ c = comma ∨ t.getLast? = some comma := by
    intro c t ht
    rcases List.eq_nil_or_concat t with rfl | ⟨init, d, rfl⟩
    · exact .inl ⟨rfl, Option.some.inj ht⟩
    · right
      rw [← ht, List.getLast?_cons, List.concat_eq_append, List.getLast?_concat]
      rfl
  induction h with
  | nil => cases hlast
  | plain _ hspells ih =>
      rcases hends hlast with ⟨rfl, rfl⟩ | htail
      · match hspells with
        | .nil => rfl
      · exact getLast_cons (ih htail)
  | escaped hu _ ih =>
      rcases hends hlast with ⟨hnil, -⟩ | htail
      · cases hnil
      · rcases hends htail with ⟨-, rfl⟩ | htail
        · have hnone : escape comma = none := by decide
          rw [hnone] at hu
          cases hu
        · exact getLast_cons (ih htail)
  | @unit x y z w u enc s hu _ ih =>
      match enc, hlast with
      | [], hlast =>
        have hw : w = comma := Option.some.inj hlast
        exact absurd (by decide) (hexUnit_mem hu comma (by simp [hw]))
      | c :: enc, hlast => exact getLast_cons (ih hlast)

/-- Between quotes, and with a comma and a quote behind, a string stands for itself only if all of
it does: past the first quote the next one would end it, and its last character with it. -/
theorem plain_of_quoted {s rest more : Text}
    (h : readString (s ++ quote :: comma :: quote :: more) = some (s, rest)) :
    ∀ c ∈ s, Plain c := by
  obtain ⟨enc, henc, hspells⟩ := readString_iff.mp h
  have hclosed : s.length < enc.length ∨ ∀ c ∈ s, Plain c :=
    hspells.shorter_or_plain.imp id And.right
  rcases List.append_eq_append_iff.mp henc with ⟨m, rfl, hm⟩ | ⟨m, rfl, -⟩
  · match m, hm with
    | [], _ => simpa using hclosed
    | [_], hm => cases hm
    | [a, b], hm =>
      -- the quote behind the string is escaped, and the comma is the last character
      simp only [List.cons_append, List.nil_append, List.cons.injEq] at hm
      obtain ⟨rfl, rfl, -⟩ := hm
      have hback := hspells.before_quote rfl
      have hcomma := hspells.getLast_comma (by simp)
      rw [hback] at hcomma
      cases hcomma
    | a :: b :: c :: m, hm =>
      simp only [List.cons_append, List.cons.injEq] at hm
      obtain ⟨rfl, rfl, rfl, -⟩ := hm
      have hback := hspells.before_quote (p := s ++ [quote, comma]) (q := m) (by simp)
      have hcomma : (s ++ [quote, comma]).getLast? = some comma := by simp
      rw [hcomma] at hback
      cases hback
  · rcases hspells.shorter_or_plain with hlt | ⟨-, hplain⟩
    · rw [List.length_append] at hlt
      omega
    · exact hplain

theorem readString_self {s : Text} (h : ∀ c ∈ s, Plain c) (rest : Text) :
    readString (s ++ quote :: rest) = some (s, rest) :=
  readString_iff.mpr ⟨s, rfl, spells_self h⟩

/-! ## Readers on the texts they read -/

/-- Digits, the first of them not a zero where there are more. -/
structure IsNumeral (ds : Text) : Prop where
  digits : ∀ d ∈ ds, isDigit d = true
  ne_nil : ds ≠ []
  first : ds = [48] ∨ ds.head? ≠ some 48

theorem readDigits_append {ds : Text} (h : IsNumeral ds) {c : UInt16} (hc : isDigit c = false)
    (s : Text) : readDigits (ds ++ c :: s) = some (ds, c :: s) := by
  have htake : (ds ++ c :: s).takeWhile isDigit = ds := by
    rw [List.takeWhile_append_of_pos h.digits, List.takeWhile_cons_of_neg (by simp [hc]),
      List.append_nil]
  have hdrop : (ds ++ c :: s).dropWhile isDigit = c :: s := by
    rw [List.dropWhile_append_of_pos h.digits, List.dropWhile_cons_of_neg (by simp [hc])]
  rw [readDigits, htake, hdrop, if_neg h.ne_nil]

theorem readInt_append {ds : Text} (h : IsNumeral ds) {c : UInt16} (hc : isDigit c = false)
    (s : Text) : readInt (ds ++ c :: s) = some (natVal ds, c :: s) := by
  rcases h.first with rfl | hzero
  · rfl
  · obtain ⟨d, ds, rfl⟩ := List.exists_cons_of_ne_nil h.ne_nil
    have hd : d ≠ 48 := by
      rintro rfl
      exact hzero rfl
    have hread := readDigits_append h hc s
    rw [List.cons_append] at hread
    rw [List.cons_append, readInt, if_neg hd, hread]
    rfl

theorem readNumber_append {ds : Text} (h : IsNumeral ds) (s : Text) :
    readNumber (ds ++ comma :: s) = some ((natVal ds : ℚ), comma :: s) := by
  have hfrac : readFrac (comma :: s) = some ([], comma :: s) := rfl
  have hexp : readExp (comma :: s) = some (0, comma :: s) := rfl
  have hvalue : readUnsigned (ds ++ comma :: s) = some ((natVal ds : ℚ), comma :: s) := by
    rw [readUnsigned, readInt_append h rfl]
    simp [hfrac, hexp, natVal]
  obtain ⟨d, ds, rfl⟩ := List.exists_cons_of_ne_nil h.ne_nil
  have hd : d ≠ 45 := by
    rintro rfl
    exact absurd (h.digits 45 List.mem_cons_self) (by decide)
  rw [List.cons_append, readNumber, if_neg hd]
  exact hvalue

theorem readValue_number {ds : Text} (h : IsNumeral ds) (n : Nat) (s : Text) :
    readValue (n + 1) (ds ++ comma :: s) = some (.number (natVal ds), comma :: s) := by
  have hnumber := readNumber_append h s
  obtain ⟨d, ds, rfl⟩ := List.exists_cons_of_ne_nil h.ne_nil
  have hd : isDigit d = true := h.digits d List.mem_cons_self
  have hne : ∀ c, isDigit c = false → d ≠ c := by
    rintro c hc rfl
    rw [hd] at hc
    cases hc
  have hskip : skipWs (d :: (ds ++ comma :: s)) = d :: (ds ++ comma :: s) := by
    apply List.dropWhile_cons_of_neg
    simp [hne 32 rfl, hne 9 rfl, hne 10 rfl, hne 13 rfl]
  have hword : readWord (d :: (ds ++ comma :: s)) = none := by
    rw [readWord.eq_def]
    split
    · rename_i heq
      exact absurd (List.cons.inj heq).1 (hne 110 rfl)
    · rename_i heq
      exact absurd (List.cons.inj heq).1 (hne 116 rfl)
    · rename_i heq
      exact absurd (List.cons.inj heq).1 (hne 102 rfl)
    · rfl
  rw [List.cons_append] at hnumber ⊢
  rw [readValue, hskip]
  simp only
  rw [if_neg (hne 123 rfl), if_neg (hne 91 rfl), if_neg (hne quote rfl), hword, Option.none_or,
    hnumber, Option.map_some]

theorem readValue_string (n : Nat) (s : Text) :
    readValue (n + 1) (quote :: s) = (readString s).map fun r => (.string r.1, r.2) := rfl

theorem readValue_object (n : Nat) (s : Text) :
    readValue (n + 1) (123 :: s)
      = (readList (readMember (readValue n)) 125 n s).map fun r => (.object r.1, r.2) := rfl

section Items
variable {α : Type} {item : Text → Option (α × Text)} {close : UInt16} {n : Nat} {s s' : Text} {a : α}

theorem readItems_comma (h : item s = some (a, comma :: s')) :
    readItems item close (n + 1) s
      = (readItems item close n s').map fun r => (a :: r.1, r.2) := by
  rw [readItems, h]
  rfl

theorem readItems_close (h : item s = some (a, close :: s')) (hskip : skipWs (close :: s') = close :: s')
    (hclose : close ≠ comma) : readItems item close (n + 1) s = some ([a], s') := by
  rw [readItems, h, Option.bind_some]
  simp only [hskip, hclose, if_false, if_true]

theorem readItems_head {as : List α} {t : Text} (h : readItems item close n s = some (as, t)) :
    ∃ a u, item s = some (a, u) ∧ a ∈ as := by
  match n, h with
  | 0, h => cases h
  | n + 1, h =>
    rw [readItems, Option.bind_eq_some_iff] at h
    obtain ⟨⟨a, u⟩, hitem, h⟩ := h
    refine ⟨a, u, hitem, ?_⟩
    revert h
    simp only
    cases skipWs u with
    | nil => exact fun h => absurd h (Option.some_ne_none _).symm
    | cons c u =>
        simp only
        by_cases hcomma : c = comma
        · rw [if_pos hcomma, Option.map_eq_some_iff]
          rintro ⟨r, -, heq⟩
          rw [← (Prod.mk.inj heq).1]
          exact List.mem_cons_self
        · rw [if_neg hcomma]
          by_cases hclose : c = close
          · rw [if_pos hclose, Option.some.injEq, Prod.mk.injEq]
            rintro ⟨rfl, -⟩
            exact List.mem_cons_self
          · rw [if_neg hclose]
            exact fun h => absurd h (Option.some_ne_none _).symm

end Items

/-- A quoted name and a colon. -/
def nameText (name : Text) : Text := quote :: (name ++ [quote, 58])

theorem readMember_name {name : Text} (h : ∀ c ∈ name, Plain c)
    (value : Text → Option (Json × Text)) (s : Text) :
    readMember value (nameText name ++ s) = (value s).map fun r => ((name, r.1), r.2) := by
  have htext : nameText name ++ s = quote :: (name ++ quote :: 58 :: s) := by
    rw [nameText, List.cons_append, List.append_assoc]
    rfl
  have hskip : ∀ t, skipWs (quote :: t) = quote :: t := fun t => rfl
  have hcolon : ∀ t, skipWs (58 :: t) = 58 :: t := fun t => rfl
  rw [htext, readMember, hskip]
  simp only [if_true]
  rw [readString_self h, Option.bind_some]
  simp only [hcolon, if_true]

end Json

end Mawmaw.Lib
