import Mathlib.Data.List.Infix
import Mathlib.Data.Nat.Find

/-!
# HTTP requests as bytes

* `findSub` : where a pattern first stands in a text, and `findSub_eq_some`, `findSub_eq_none`;
* `Request` : a request line and field lines, `Request.bytes` : each ended by CR LF, and a blank line;
* `findSub_encFields` : a pattern without CR and LF is searched for line by line;
* `Request.blank_at_end`, `exists_request` : the texts that end with their first blank line are the
  requests;
* `Request.value?` : the value of a field, whose name is compared without regard to case.
-/

namespace Mawmaw.Lib

/-! ## Searching -/

section Search
variable {α : Type} [DecidableEq α]

/-- The first position from which on `s` starts with `pat`. -/
def findSub (pat : List α) : List α → Option Nat
  | [] => if pat = [] then some 0 else none
  | a :: s => if pat <+: a :: s then some 0 else (findSub pat s).map (· + 1)

theorem findSub_nil {pat : List α} (h : pat ≠ []) : findSub pat [] = none := by
  rw [findSub, if_neg h]

theorem findSub_cons {pat : List α} {a : α} {s : List α} (h : ¬pat <+: a :: s) :
    findSub pat (a :: s) = (findSub pat s).map (· + 1) := by
  rw [findSub, if_neg h]

theorem findSub_eq_some {pat s : List α} {i : Nat} :
    findSub pat s = some i ↔ pat <+: s.drop i ∧ ∀ j < i, ¬pat <+: s.drop j := by
  induction s generalizing i with
  | nil =>
      rw [findSub]
      by_cases hpat : pat = []
      · subst hpat
        rw [if_pos rfl, Option.some.injEq]
        constructor
        · rintro rfl
          exact ⟨List.nil_prefix, fun j hj => absurd hj (Nat.not_lt_zero j)⟩
        · rintro ⟨-, hfirst⟩
          by_contra hne
          exact hfirst 0 (Nat.pos_of_ne_zero (Ne.symm hne)) List.nil_prefix
      · rw [if_neg hpat, List.drop_nil, List.prefix_nil]
        simp [hpat]
  | cons a s ih =>
      rw [findSub]
      by_cases hhere : pat <+: a :: s
      · rw [if_pos hhere, Option.some.injEq]
        constructor
        · rintro rfl
          exact ⟨hhere, fun j hj => absurd hj (Nat.not_lt_zero j)⟩
        · rintro ⟨-, hfirst⟩
          by_contra hne
          exact hfirst 0 (Nat.pos_of_ne_zero (Ne.symm hne)) hhere
      · rw [if_neg hhere]
        cases i with
        | zero => simp [hhere]
        | succ i =>
            have hmap : (findSub pat s).map (· + 1) = some (i + 1) ↔ findSub pat s = some i := by
              cases findSub pat s <;> simp
            rw [hmap, ih, List.drop_succ_cons]
            constructor
            · rintro ⟨hpat, hfirst⟩
              refine ⟨hpat, fun j hj => ?_⟩
              cases j with
              | zero => exact hhere
              | succ j => exact hfirst j (by omega)
            · rintro ⟨hpat, hfirst⟩
              exact ⟨hpat, fun j hj => hfirst (j + 1) (by omega)⟩

theorem findSub_eq_none {pat s : List α} : findSub pat s = none ↔ ∀ j, ¬pat <+: s.drop j := by
  constructor
  · intro hnone j hj
    -- the least such position would have been found
    obtain ⟨i, hi, hleast⟩ : ∃ i, pat <+: s.drop i ∧ ∀ k < i, ¬pat <+: s.drop k := by
      have hex : ∃ i, pat <+: s.drop i := ⟨j, hj⟩
      exact ⟨Nat.find hex, Nat.find_spec hex, fun k hk => Nat.find_min hex hk⟩
    rw [findSub_eq_some.mpr ⟨hi, hleast⟩] at hnone
    cases hnone
  · intro hnever
    cases hfind : findSub pat s with
    | none => rfl
    | some i => exact absurd (findSub_eq_some.mp hfind).1 (hnever i)

theorem isSome_findSub {pat s : List α} :
    (findSub pat s).isSome = true ↔ ∃ i, pat <+: s.drop i := by
  rw [← Option.ne_none_iff_isSome, ne_eq, findSub_eq_none]
  simp only [not_forall, not_not]

theorem findSub_eq_none_iff_infix {pat s : List α} : findSub pat s = none ↔ ¬pat <:+: s := by
  rw [findSub_eq_none, ← not_exists]
  apply not_congr
  rw [List.infix_iff_prefix_suffix]
  constructor
  · rintro ⟨j, hj⟩
    exact ⟨s.drop j, hj, List.drop_suffix j s⟩
  · rintro ⟨t, hpre, hsuf⟩
    exact ⟨s.length - t.length, by rwa [← List.suffix_iff_eq_drop.mp hsuf]⟩

end Search

/-! ## Lines -/

/-- CR LF. -/
def crlf : List UInt8 := [13, 10]

/-- A line, without its end. -/
def IsLine (l : List UInt8) : Prop := ∀ j, ¬crlf <+: l.drop j

instance (l : List UInt8) : Decidable (IsLine l) :=
  decidable_of_iff (findSub crlf l = none) findSub_eq_none

theorem IsLine.of_suffix {l t : List UInt8} (hl : IsLine l) (h : t <:+ l) : IsLine t := by
  intro j hj
  apply hl (l.length - t.length + j)
  rwa [← List.drop_drop, ← List.suffix_iff_eq_drop.mp h]

/-- The end of a line is the first CR LF from its start on, whatever follows. -/
theorem IsLine.not_before {l : List UInt8} (hl : IsLine l) (x : List UInt8) {j : Nat}
    (hj : j < l.length) : ¬crlf <+: (l ++ crlf ++ x).drop j := by
  intro hpre
  have hlen : j ≤ l.length := by omega
  rw [List.append_assoc, List.drop_append_of_le_length hlen] at hpre
  match hrest : l.drop j with
  | [] =>
    have := congrArg List.length hrest
    rw [List.length_drop, List.length_nil] at this
    omega
  | [a] =>
    -- the last character of the line with the first of its end
    rw [hrest] at hpre
    obtain ⟨t, ht⟩ := hpre
    simp [crlf] at ht
  | a :: b :: t =>
    rw [hrest] at hpre
    apply hl j
    rw [hrest]
    obtain ⟨u, hu⟩ := hpre
    simp only [crlf, List.cons_append, List.nil_append, List.cons.injEq] at hu
    rw [← hu.1, ← hu.2.1]
    exact ⟨t, rfl⟩

theorem IsLine.findSub_crlf {l : List UInt8} (hl : IsLine l) (x : List UInt8) :
    findSub crlf (l ++ crlf ++ x) = some l.length := by
  apply findSub_eq_some.mpr
  refine ⟨?_, fun j hj => hl.not_before x hj⟩
  rw [List.append_assoc, List.drop_left]
  exact List.prefix_append crlf x

/-! ## Requests -/

/-- A request line and field lines, none of them empty. -/
structure Request where
  requestLine : List UInt8
  fields : List (List UInt8)
  requestLine_isLine : IsLine requestLine
  fields_isLine : ∀ l ∈ fields, IsLine l ∧ l ≠ []

/-- Lines, each with its end, and the blank line. -/
def encFields (fields : List (List UInt8)) : List UInt8 := fields.flatMap (· ++ crlf) ++ crlf

theorem encFields_cons (l : List UInt8) (fields : List (List UInt8)) :
    encFields (l :: fields) = l ++ crlf ++ encFields fields := by
  rw [encFields, List.flatMap_cons, List.append_assoc]
  rfl

namespace Request

def bytes (r : Request) : List UInt8 := r.requestLine ++ crlf ++ encFields r.fields

def lines (r : Request) : List (List UInt8) := r.requestLine :: r.fields

theorem bytes_eq (r : Request) : r.bytes = encFields r.lines := by
  rw [bytes, lines, encFields_cons]

theorem isLine (r : Request) {l : List UInt8} (h : l ∈ r.lines) : IsLine l := by
  rcases List.mem_cons.mp h with rfl | hmem
  · exact r.requestLine_isLine
  · exact (r.fields_isLine l hmem).1

end Request

theorem crlf_length : crlf.length = 2 := rfl

/-! ## Searching lines -/

section Lines
variable {pat : List UInt8} (hpat : pat ≠ []) (hfree : ∀ b ∈ crlf, b ∉ pat)
include hpat hfree

/-- A pattern without CR and LF does not reach over the end of a line. -/
theorem findSub_line (l x : List UInt8) :
    findSub pat (l ++ crlf ++ x)
      = (findSub pat l).or ((findSub pat x).map (l.length + 2 + ·)) := by
  have hstart : ∀ b ∈ crlf, ∀ (u y : List UInt8), pat <+: u ++ b :: y ↔ pat <+: u := by
    intro b hb u y
    refine ⟨?_, fun h => h.trans (List.prefix_append _ _)⟩
    rintro ⟨t, ht⟩
    rcases List.append_eq_append_iff.mp ht with ⟨v, hu, -⟩ | ⟨v, hv, hy⟩
    · exact ⟨v, hu.symm⟩
    · match v, hy with
      | [], _ =>
        rw [List.append_nil] at hv
        rw [hv]
      | c :: v, hy =>
        refine absurd ?_ (hfree b hb)
        rw [hv, (List.cons.inj hy).1]
        exact List.mem_append_right u List.mem_cons_self
  induction l with
  | nil =>
      have hcr := hstart 13 (by decide) [] (10 :: x)
      have hlf := hstart 10 (by decide) [] x
      simp only [List.nil_append, List.prefix_nil, hpat, iff_false] at hcr hlf
      change findSub pat (13 :: 10 :: x) = _
      rw [findSub_cons hcr, findSub_cons hlf, findSub_nil hpat, Option.none_or, Option.map_map]
      congr 1
      ext i
      simp only [Function.comp_apply, List.length_nil]
      omega
  | cons a l ih =>
      have hhere := hstart 13 (by decide) (a :: l) (10 :: x)
      change findSub pat (a :: (l ++ crlf ++ x)) = _
      have hcons : (a :: l) ++ 13 :: 10 :: x = a :: (l ++ crlf ++ x) := by
        rw [List.append_assoc]
        rfl
      rw [hcons] at hhere
      by_cases hl : pat <+: a :: l
      · rw [findSub, findSub, if_pos (hhere.mpr hl), if_pos hl]
        rfl
      · rw [findSub_cons (mt hhere.mp hl), findSub_cons hl, ih]
        cases findSub pat l with
        | some i => rfl
        | none =>
            simp only [Option.none_or, Option.map_none, Option.map_map]
            congr 1
            ext i
            simp only [Function.comp_apply, List.length_cons]
            omega

theorem findSub_encFields_none {ls : List (List UInt8)} (h : ∀ l ∈ ls, findSub pat l = none) :
    findSub pat (encFields ls) = none := by
  induction ls with
  | nil =>
      have hend := findSub_line hpat hfree [] []
      rwa [List.append_nil, findSub_nil hpat] at hend
  | cons l ls ih =>
      rw [List.forall_mem_cons] at h
      rw [encFields_cons, findSub_line hpat hfree, h.1, ih h.2]
      rfl

/-- The pattern is found in the first line it stands in. -/
theorem findSub_encFields {before : List (List UInt8)} {l : List UInt8} {i : Nat}
    (after : List (List UInt8)) (hbefore : ∀ m ∈ before, findSub pat m = none) (hl : findSub pat l = some i) :
    findSub pat (encFields (before ++ l :: after))
      = some ((before.flatMap (· ++ crlf)).length + i) := by
  induction before with
  | nil =>
      rw [List.nil_append, encFields_cons, findSub_line hpat hfree, hl, List.flatMap_nil,
        List.length_nil, Nat.zero_add]
      rfl
  | cons m before ih =>
      rw [List.forall_mem_cons] at hbefore
      rw [List.cons_append, encFields_cons, findSub_line hpat hfree, hbefore.1, ih hbefore.2,
        Option.none_or, Option.map_some, List.flatMap_cons, List.length_append, List.length_append,
        crlf_length, Nat.add_assoc (m.length + 2)]

end Lines

/-- A blank line behind a line and the fields is the one at the end. -/
theorem blank_at_end {fields : List (List UInt8)} : ∀ {l : List UInt8}, IsLine l →
    (∀ f ∈ fields, IsLine f ∧ f ≠ []) → ∀ {j : Nat},
    crlf ++ crlf <+: (l ++ crlf ++ encFields fields).drop j →
    j + 4 = (l ++ crlf ++ encFields fields).length := by
  induction fields with
  | nil =>
      intro l hl _ j hpre
      have hlow : l.length ≤ j := by
        by_contra hj
        exact hl.not_before _ (Nat.lt_of_not_le hj) ((List.prefix_append _ _).trans hpre)
      have hlen := hpre.length_le
      simp only [List.length_drop, List.length_append, crlf_length, encFields, List.flatMap_nil,
        List.nil_append] at hlen ⊢
      omega
  | cons f fields ih =>
      intro l hl hfields j hpre
      rw [List.forall_mem_cons] at hfields
      have hlow : l.length ≤ j := by
        by_contra hj
        exact hl.not_before _ (Nat.lt_of_not_le hj) ((List.prefix_append _ _).trans hpre)
      obtain ⟨k, rfl⟩ := Nat.exists_eq_add_of_le hlow
      have hdrop : (l ++ crlf ++ encFields (f :: fields)).drop (l.length + k)
          = (crlf ++ encFields (f :: fields)).drop k := by
        rw [List.append_assoc, List.drop_append, List.drop_eq_nil_of_le (Nat.le_add_right _ _),
          List.nil_append, Nat.add_sub_cancel_left]
      rw [hdrop] at hpre
      match k, hpre with
      | 0, hpre =>
        -- the next line would be empty
        rw [List.drop_zero] at hpre
        have hnext := (List.prefix_append_right_inj crlf).mp hpre
        rw [encFields_cons] at hnext
        exact absurd hnext (hfields.1.1.not_before _ (List.length_pos_of_ne_nil hfields.1.2))
      | 1, hpre =>
        obtain ⟨t, ht⟩ := hpre
        simp [crlf] at ht
      | k + 2, hpre =>
        have hskip : (crlf ++ encFields (f :: fields)).drop (k + 2)
            = (f ++ crlf ++ encFields fields).drop k := by
          rw [encFields_cons]
          rfl
        rw [hskip] at hpre
        have hend := ih hfields.1.1 hfields.2 hpre
        rw [← encFields_cons] at hend
        rw [List.length_append, List.length_append, crlf_length, ← hend]
        omega

theorem Request.blank_at_end (r : Request) {j : Nat} (h : crlf ++ crlf <+: r.bytes.drop j) :
    j + 4 = r.bytes.length :=
  Lib.blank_at_end r.requestLine_isLine r.fields_isLine h

theorem Request.ends_blank (r : Request) : crlf ++ crlf <:+ r.bytes := by
  rcases List.eq_nil_or_concat r.fields with hnil | ⟨init, l, hsplit⟩
  · rw [bytes, hnil]
    exact ⟨r.requestLine, by simp [encFields]⟩
  · rw [bytes, hsplit]
    exact ⟨r.requestLine ++ crlf ++ init.flatMap (· ++ crlf) ++ l, by simp [encFields]⟩

/-- A text is split at its first CR LF into a line and what follows. -/
theorem exists_line {t : List UInt8} (h : crlf <:+ t) :
    ∃ l rest, t = l ++ crlf ++ rest ∧ IsLine l := by
  obtain ⟨pre, hpre⟩ := h
  cases hfind : findSub crlf t with
  | none =>
      apply absurd (findSub_eq_none.mp hfind pre.length)
      rw [← hpre, List.drop_left]
      exact not_not.mpr (List.prefix_refl crlf)
  | some i =>
      obtain ⟨⟨rest, hrest⟩, hfirst⟩ := findSub_eq_some.mp hfind
      refine ⟨t.take i, rest, ?_, fun j hj => ?_⟩
      · rw [List.append_assoc, hrest, List.take_append_drop]
      · by_cases hij : j < i
        · apply hfirst j hij
          rw [List.drop_take] at hj
          exact hj.trans (List.take_prefix _ _)
        · rw [List.drop_eq_nil_of_le (by rw [List.length_take]; omega)] at hj
          have hlen := hj.length_le
          rw [crlf_length, List.length_nil] at hlen
          omega

/-- Where a nonempty line follows, the text does not end with that line's end. -/
theorem suffix_rest {l rest : List UInt8} (hl : IsLine l) (hne : l ≠ [])
    (h : crlf ++ crlf <:+ crlf ++ (l ++ crlf ++ rest)) : crlf ++ crlf <:+ crlf ++ rest := by
  have hpos := List.length_pos_of_ne_nil hne
  have hwhole : crlf ++ rest <:+ crlf ++ (l ++ crlf ++ rest) :=
    ⟨crlf ++ l, by simp only [List.append_assoc]⟩
  by_cases hlong : 2 ≤ rest.length
  · refine List.suffix_of_suffix_length_le h hwhole ?_
    simp only [List.length_append, crlf_length]
    omega
  · exfalso
    match rest, hlong with
    | [], _ =>
      rw [List.append_nil, ← List.append_assoc] at h
      have hline : crlf <:+ crlf ++ l := by
        obtain ⟨pre, hpre⟩ := h
        rw [← List.append_assoc] at hpre
        exact ⟨pre, List.append_cancel_right hpre⟩
      by_cases htwo : 2 ≤ l.length
      · obtain ⟨pre, hpre⟩ := List.suffix_of_suffix_length_le hline (List.suffix_append crlf l)
          htwo
        apply hl pre.length
        rw [← hpre, List.drop_left]
      · match l, hpos, htwo with
        | [a], _, _ =>
          obtain ⟨pre, hpre⟩ := hline
          have hrev := congrArg List.reverse hpre
          simp [crlf] at hrev
        | _ :: _ :: _, _, htwo => exact htwo (Nat.le_add_left 2 _)
    | [a], _ =>
      obtain ⟨pre, hpre⟩ := h
      have hrev := congrArg List.reverse hpre
      simp [crlf] at hrev
    | _ :: _ :: _, hlong => exact hlong (Nat.le_add_left 2 _)

theorem exists_fields {t : List UInt8} (hend : crlf ++ crlf <:+ crlf ++ t)
    (hfirst : ∀ j, crlf ++ crlf <+: (crlf ++ t).drop j → j + 4 = (crlf ++ t).length) :
    ∃ fields, (∀ f ∈ fields, IsLine f ∧ f ≠ []) ∧ t = encFields fields := by
  induction hn : t.length using Nat.strong_induction_on generalizing t with
  | _ n ih =>
    have hcrlf : crlf <:+ t := by
      have hlen := hend.length_le
      rw [List.length_append, List.length_append, crlf_length] at hlen
      exact List.suffix_of_suffix_length_le ((List.suffix_append crlf crlf).trans hend)
        (List.suffix_append crlf t) (by rw [crlf_length]; omega)
    obtain ⟨l, rest, rfl, hl⟩ := exists_line hcrlf
    by_cases hne : l = []
    · subst hne
      have hlen := hfirst 0
        ⟨rest, by simp only [List.drop_zero, List.nil_append, List.append_assoc]⟩
      simp only [List.length_append, List.length_nil, crlf_length] at hlen
      have hrest : rest = [] := List.length_eq_zero_iff.mp (by omega)
      refine ⟨[], List.forall_mem_nil _, ?_⟩
      rw [hrest]
      rfl
    · have hdrop : ∀ j, (crlf ++ (l ++ crlf ++ rest)).drop (2 + l.length + j)
          = (crlf ++ rest).drop j := by
        intro j
        have hpre : (crlf ++ l).length = 2 + l.length := by rw [List.length_append, crlf_length]
        rw [← hpre, ← List.drop_drop, List.append_assoc l, ← List.append_assoc crlf l,
          List.drop_left]
      have hshorter : rest.length < n := by
        rw [← hn]
        simp only [List.length_append, crlf_length]
        omega
      obtain ⟨fields, hfields, hrest⟩ := ih rest.length hshorter (suffix_rest hl hne hend)
        (fun j hj => by
          have hj' := hfirst (2 + l.length + j) (by rw [hdrop]; exact hj)
          simp only [List.length_append, crlf_length] at hj' ⊢
          omega) rfl
      refine ⟨l :: fields, List.forall_mem_cons.mpr ⟨⟨hl, hne⟩, hfields⟩, ?_⟩
      rw [encFields_cons, ← hrest]

/-- The texts that end with their first blank line are the requests. -/
theorem exists_request {text : List UInt8} (hend : crlf ++ crlf <:+ text)
    (hfirst : ∀ j, crlf ++ crlf <+: text.drop j → j + 4 = text.length) :
    ∃ r : Request, r.bytes = text := by
  obtain ⟨l, rest, rfl, hl⟩ := exists_line ((List.suffix_append crlf crlf).trans hend)
  have hrest : crlf ++ crlf <:+ crlf ++ rest := by
    by_cases hne : l = []
    · rwa [hne, List.nil_append] at hend
    · exact suffix_rest hl hne (hend.trans (List.suffix_append crlf _))
  obtain ⟨fields, hfields, rfl⟩ := exists_fields hrest fun j hj => by
    have hj' := hfirst (l.length + j) (by
      rw [← List.drop_drop, List.append_assoc, List.drop_left]
      exact hj)
    simp only [List.length_append] at hj' ⊢
    omega
  exact ⟨⟨l, fields, hl, hfields⟩, rfl⟩

/-! ## Fields -/

def colon : UInt8 := 58

/-- An ASCII letter in lower case. -/
def lower (b : UInt8) : UInt8 := if 65 ≤ b ∧ b ≤ 90 then b + 32 else b

/-- A line is a field of a name: up to its first colon it is the name, but for case. -/
def IsField (name l : List UInt8) : Prop :=
  colon ∈ l ∧ (l.takeWhile (· != colon)).map lower = name.map lower

instance (name l : List UInt8) : Decidable (IsField name l) := inferInstanceAs (Decidable (_ ∧ _))

/-- What follows the first colon. -/
def fieldValue (l : List UInt8) : List UInt8 := (l.dropWhile (· != colon)).tail

theorem split_colon {l : List UInt8} (h : colon ∈ l) :
    l.takeWhile (· != colon) ++ colon :: fieldValue l = l := by
  induction l with
  | nil => cases h
  | cons a l ih =>
      by_cases ha : a = colon
      · simp [ha, fieldValue]
      · have hl : colon ∈ l := (List.mem_cons.mp h).resolve_left (Ne.symm ha)
        have hvalue : fieldValue (a :: l) = fieldValue l := by simp [fieldValue, ha]
        rw [hvalue, List.takeWhile_cons_of_pos (by simpa using ha), List.cons_append, ih hl]

theorem IsLine.fieldValue {l : List UInt8} (hl : IsLine l) (h : colon ∈ l) :
    IsLine (fieldValue l) := by
  apply hl.of_suffix
  have hsplit := split_colon h
  rw [List.append_cons] at hsplit
  exact ⟨_, hsplit⟩

/-- The value of the first field of a name. -/
def Request.value? (r : Request) (name : List UInt8) : Option (List UInt8) :=
  (r.fields.find? fun l => decide (IsField name l)).map fieldValue

end Mawmaw.Lib
