import Mawmaw.Lib.CString

/-!
# Numerals of the C library

* `stoull`, `stoi` : leading blanks, a sign and a decimal numeral; what follows is ignored. An error
  carries the text of the exception, the name of the function;
* `Leads` : the text of a numeral in front of a rest; when `stoull` goes through
  (`stoull_eq_ok_iff`);
* `natStr` : the decimal numeral a stream writes (`natStr_of_lt`, `natStr_of_le`).
-/

namespace Mawmaw.Lib

def isSpace (b : UInt8) : Bool := b == 32 || (9 ≤ b && b ≤ 13)

def isDigit (b : UInt8) : Bool := 48 ≤ b && b ≤ 57

def decimal (ds : Str) : Nat := ds.foldl (fun n d => 10 * n + (d.toNat - 48)) 0

/-- Whether there is a minus sign, and the magnitude; `none` if there is no digit. -/
def readNumeral (s : Str) : Option (Bool × Nat) :=
  let s := s.dropWhile isSpace
  let (neg, s) := match s with
    | 45 :: s => (true, s)
    | 43 :: s => (false, s)
    | s => (false, s)
  let ds := s.takeWhile isDigit
  if ds.isEmpty then none else some (neg, decimal ds)

/-- A minus sign negates modulo `2 ^ 64`. -/
def stoull (s : Str) : Except Str UInt64 :=
  match readNumeral s with
  | none => .error (lit "stoull")
  | some (neg, n) =>
    if n < 2 ^ 64 then .ok (if neg then 0 - UInt64.ofNat n else UInt64.ofNat n)
    else .error (lit "stoull")

def stoi (s : Str) : Except Str Int :=
  match readNumeral s with
  | none => .error (lit "stoi")
  | some (neg, n) =>
    let v : Int := if neg then -n else n
    if -2 ^ 31 ≤ v ∧ v < 2 ^ 31 then .ok v else .error (lit "stoi")

/-! ## The text a conversion reads -/

theorem takeWhile_append_rest {p : UInt8 → Bool} {ds rest : Str} (hds : ∀ d ∈ ds, p d = true)
    (hrest : ∀ d ∈ rest.head?, p d = false) : (ds ++ rest).takeWhile p = ds := by
  rw [List.takeWhile_append_of_pos hds]
  cases rest with
  | nil => rw [List.takeWhile_nil, List.append_nil]
  | cons d rest => rw [List.takeWhile_cons_of_neg (by simp [hrest d rfl]), List.append_nil]

theorem dropWhile_append_rest {p : UInt8 → Bool} {bs rest : Str} (hbs : ∀ b ∈ bs, p b = true)
    (hrest : ∀ b ∈ rest.head?, p b = false) : (bs ++ rest).dropWhile p = rest := by
  rw [List.dropWhile_append_of_pos hbs]
  cases rest with
  | nil => rfl
  | cons b rest => rw [List.dropWhile_cons_of_neg (by simp [hrest b rfl])]

theorem head?_dropWhile_eq_false {p : UInt8 → Bool} {s : Str} :
    ∀ b ∈ (s.dropWhile p).head?, p b = false := by
  intro b hb
  have := List.head?_dropWhile_not p s
  rw [Option.mem_def.mp hb] at this
  simpa using this

/-- `s` is `t` after a sign or none. -/
inductive Signed : Str → Bool → Str → Prop
  | minus (t : Str) : Signed (45 :: t) true t
  | plus (t : Str) : Signed (43 :: t) false t
  | unsigned {t : Str} (hminus : t.head? ≠ some 45) (hplus : t.head? ≠ some 43) : Signed t false t

/-- `s` is blanks, a sign or none, the digits `ds`, and a rest that begins with no digit. -/
def Leads (s : Str) (neg : Bool) (ds : Str) : Prop :=
  ∃ blanks number rest, s = blanks ++ number ∧ (∀ b ∈ blanks, isSpace b = true)
    ∧ Signed number neg (ds ++ rest) ∧ ds ≠ [] ∧ (∀ d ∈ ds, isDigit d = true)
    ∧ ∀ d ∈ rest.head?, isDigit d = false

theorem exists_signed (s : Str) : ∃ neg t, Signed s neg t := by
  by_cases hminus : s.head? = some 45
  · obtain ⟨t, rfl⟩ := List.head?_eq_some_iff.mp hminus
    exact ⟨true, t, .minus t⟩
  · by_cases hplus : s.head? = some 43
    · obtain ⟨t, rfl⟩ := List.head?_eq_some_iff.mp hplus
      exact ⟨false, t, .plus t⟩
    · exact ⟨false, s, .unsigned hminus hplus⟩

theorem readNumeral_of_signed {s t : Str} {neg : Bool} (h : Signed (s.dropWhile isSpace) neg t) :
    readNumeral s = if t.takeWhile isDigit = [] then none
      else some (neg, decimal (t.takeWhile isDigit)) := by
  unfold readNumeral
  generalize s.dropWhile isSpace = u at h
  obtain _ | _ | ⟨hminus, hplus⟩ := h
  · simp
  · simp
  · cases t with
    | nil => rfl
    | cons b t =>
      have hminus' : b ≠ 45 := fun hb => hminus (by rw [hb]; rfl)
      have hplus' : b ≠ 43 := fun hb => hplus (by rw [hb]; rfl)
      simp [hminus', hplus']

/-- Digits are neither blanks nor signs. -/
theorem not_space_of_isDigit {d : UInt8} (h : isDigit d = true) : isSpace d = false := by
  simp only [isDigit, isSpace, Bool.and_eq_true, decide_eq_true_eq, UInt8.le_iff_toNat_le,
    Bool.or_eq_false_iff, Bool.and_eq_false_iff, decide_eq_false_iff_not, beq_eq_false_iff_ne,
    ne_eq, ← UInt8.toNat_inj, UInt8.reduceToNat] at h ⊢
  omega

theorem Leads.readNumeral {s : Str} {neg : Bool} {ds : Str} (h : Leads s neg ds) :
    readNumeral s = some (neg, decimal ds) := by
  obtain ⟨blanks, number, rest, rfl, hblanks, hsigned, hne, hdigits, hrest⟩ := h
  have hhead : ∀ b ∈ number.head?, isSpace b = false := by
    generalize ht : ds ++ rest = t at hsigned
    obtain _ | _ | _ := hsigned
    · simp; decide
    · simp; decide
    · obtain ⟨d, ds, rfl⟩ := List.exists_cons_of_ne_nil hne
      subst ht
      simpa using not_space_of_isDigit (hdigits d (.head _))
  rw [← dropWhile_append_rest hblanks hhead] at hsigned
  rw [readNumeral_of_signed hsigned, takeWhile_append_rest hdigits hrest, if_neg hne]

theorem exists_leads {s : Str} {neg : Bool} {n : Nat} (h : readNumeral s = some (neg, n)) :
    ∃ ds, Leads s neg ds ∧ decimal ds = n := by
  obtain ⟨neg', t, hsigned⟩ := exists_signed (s.dropWhile isSpace)
  rw [readNumeral_of_signed hsigned] at h
  split at h
  · cases h
  · next hne =>
    cases h
    refine ⟨t.takeWhile isDigit, ⟨s.takeWhile isSpace, s.dropWhile isSpace, t.dropWhile isDigit,
      List.takeWhile_append_dropWhile.symm, fun b hb => List.mem_takeWhile_imp hb, ?_, hne,
      fun d hd => List.mem_takeWhile_imp hd, head?_dropWhile_eq_false⟩, rfl⟩
    rwa [List.takeWhile_append_dropWhile]

/-- `stoull` goes through when a numeral below `2 ^ 64` leads the text. -/
theorem stoull_eq_ok_iff {s : Str} {v : UInt64} :
    stoull s = .ok v ↔ ∃ neg ds, Leads s neg ds ∧ decimal ds < 2 ^ 64
      ∧ v = if neg then 0 - UInt64.ofNat (decimal ds) else UInt64.ofNat (decimal ds) := by
  constructor
  · intro h
    unfold stoull at h
    split at h
    · cases h
    · next neg n hread =>
      obtain ⟨ds, hleads, rfl⟩ := exists_leads hread
      split at h
      · next hlt => exact ⟨neg, ds, hleads, hlt, (Except.ok.inj h).symm⟩
      · cases h
  · rintro ⟨neg, ds, hleads, hlt, rfl⟩
    unfold stoull
    rw [hleads.readNumeral]
    simp only [if_pos hlt]

/-- Digits alone. -/
theorem leads_self {s : Str} (hne : s ≠ []) (hdigits : ∀ d ∈ s, isDigit d = true) :
    Leads s false s := by
  obtain ⟨d, t, rfl⟩ := List.exists_cons_of_ne_nil hne
  refine ⟨[], d :: t, [], rfl, by simp, ?_, hne, hdigits, by simp⟩
  rw [List.append_nil]
  apply Signed.unsigned
  · rintro h
    cases h
    exact absurd (hdigits 45 (.head _)) (by decide)
  · rintro h
    cases h
    exact absurd (hdigits 43 (.head _)) (by decide)

/-! ## The numeral a stream writes -/

def natStr (n : Nat) : Str := (Nat.toDigits 10 n).map fun c => UInt8.ofNat c.toNat

theorem natStr_of_lt {n : Nat} (h : n < 10) : natStr n = [UInt8.ofNat (48 + n)] := by
  have hchar : ∀ i : Fin 10, (Nat.digitChar i.val).toNat = 48 + i.val := by decide
  rw [natStr, Nat.toDigits_of_lt_base h, List.map_singleton, hchar ⟨n, h⟩]

theorem natStr_of_le {n : Nat} (h : 10 ≤ n) :
    natStr n = natStr (n / 10) ++ natStr (n % 10) := by
  rw [natStr, Nat.toDigits_of_base_le (by decide) h, List.map_append, natStr, natStr,
    Nat.toDigits_of_lt_base (Nat.mod_lt n (by decide))]

end Mawmaw.Lib
