import Mawmaw.Config.Config

/-!
# The grammar of a window

* `windowFields` : the trimmed fields of the value;
* `IsWindow` : the form `stream_id, count|time, N`, and the window it stands for;
* `Slips` : the other values `parseWindow` takes;
* `parse_window_exact_iff` : the parser against the form.
-/

namespace Mawmaw.Conf
open Mawmaw.Lib

/-! ## The form -/

def windowFields (val : Str) : List Str := (val.splitOn comma).map trim

/-- Digits alone, with a value below `2 ^ 64`. -/
def IsUnsigned (s : Str) : Prop := s ≠ [] ∧ (∀ d ∈ s, isDigit d = true) ∧ decimal s < 2 ^ 64

def IsKind (s : Str) : Prop := s = lit "count" ∨ s = lit "time"

/-- Three fields: a stream id, `count` or `time`, and a numeral. -/
def IsWindow (val : Str) (w : ParsedWindow) : Prop :=
  ∃ id kind n, windowFields val = [id, kind, n] ∧ id ≠ [] ∧ IsKind kind ∧ IsUnsigned n
    ∧ w = { streamId := id, timeBased := kind == lit "time", n := UInt64.ofNat (decimal n) }

/-- The third field begins with a numeral, a sign and blanks aside, and there is a fourth field, no
stream id, another keyword, or something besides digits in the third field. -/
def Slips (val : Str) : Prop :=
  ∃ id kind n rest, windowFields val = id :: kind :: n :: rest
    ∧ (∃ neg ds, Leads n neg ds ∧ decimal ds < 2 ^ 64)
    ∧ (rest ≠ [] ∨ id = [] ∨ ¬IsKind kind ∨ ∃ d ∈ n, isDigit d = false)

/-! ## The parser -/

theorem parseWindow_eq_ok_iff {val : Str} {w : ParsedWindow} :
    parseWindow val = .ok w ↔ ∃ id kind n rest m, windowFields val = id :: kind :: n :: rest
      ∧ stoull n = .ok m ∧ w = { streamId := id, timeBased := kind == lit "time", n := m } := by
  unfold parseWindow windowFields
  constructor
  · intro h
    split at h
    · next id kind n rest hfields =>
      obtain ⟨m, hm⟩ : ∃ m, stoull n = .ok m := by
        cases hn : stoull n with
        | error e => rw [hn] at h; cases h
        | ok m => exact ⟨m, rfl⟩
      rw [hm] at h
      exact ⟨id, kind, n, rest, m, hfields, hm, (Except.ok.inj h).symm⟩
    · cases h
  · rintro ⟨id, kind, n, rest, m, hfields, hm, rfl⟩
    rw [hfields]
    simp only [hm]
    rfl

theorem IsUnsigned.stoull {s : Str} (h : IsUnsigned s) :
    stoull s = .ok (UInt64.ofNat (decimal s)) :=
  stoull_eq_ok_iff.mpr ⟨false, s, leads_self h.1 h.2.1, h.2.2, rfl⟩

/-- A field that a numeral leads, and that is digits alone, is that numeral. -/
theorem isUnsigned_of_leads {s : Str} {neg : Bool} {ds : Str} (h : Leads s neg ds)
    (hlt : decimal ds < 2 ^ 64) (hdigits : ∀ d ∈ s, isDigit d = true) : IsUnsigned s := by
  have hne : s ≠ [] := by
    rintro rfl
    exact absurd h.readNumeral (by simp [readNumeral])
  have hself := (leads_self hne hdigits).readNumeral
  rw [h.readNumeral, Option.some.injEq, Prod.mk.injEq] at hself
  exact ⟨hne, hdigits, hself.2 ▸ hlt⟩

theorem IsWindow.parseWindow {val : Str} {w : ParsedWindow} (h : IsWindow val w) :
    parseWindow val = .ok w := by
  obtain ⟨id, kind, n, hfields, -, -, hn, rfl⟩ := h
  exact parseWindow_eq_ok_iff.mpr ⟨id, kind, n, [], _, hfields, hn.stoull, rfl⟩

theorem isWindow_of_not_slips {val : Str} {w : ParsedWindow} (h : ¬Slips val)
    (hok : parseWindow val = .ok w) : IsWindow val w := by
  obtain ⟨id, kind, n, rest, m, hfields, hm, rfl⟩ := parseWindow_eq_ok_iff.mp hok
  obtain ⟨neg, ds, hleads, hlt, -⟩ := stoull_eq_ok_iff.mp hm
  have hform : rest = [] ∧ id ≠ [] ∧ IsKind kind ∧ ∀ d ∈ n, isDigit d = true := by
    by_contra hbad
    refine h ⟨id, kind, n, rest, hfields, ⟨neg, ds, hleads, hlt⟩, ?_⟩
    by_contra hnone
    simp only [not_or, not_not, not_exists, not_and, Bool.not_eq_false] at hnone
    exact hbad hnone
  obtain ⟨rfl, hid, hkind, hdigits⟩ := hform
  have hn := isUnsigned_of_leads hleads hlt hdigits
  rw [hn.stoull] at hm
  exact ⟨id, kind, n, hfields, hid, hkind, hn, by rw [Except.ok.inj hm]⟩

theorem Slips.accepted {val : Str} (h : Slips val) :
    ∃ w, Conf.parseWindow val = .ok w ∧ ¬IsWindow val w := by
  obtain ⟨id, kind, n, rest, hfields, ⟨neg, ds, hleads, hlt⟩, hbad⟩ := h
  refine ⟨_, parseWindow_eq_ok_iff.mpr ⟨id, kind, n, rest, _, hfields,
    stoull_eq_ok_iff.mpr ⟨neg, ds, hleads, hlt, rfl⟩, rfl⟩, ?_⟩
  rintro ⟨id', kind', n', hfields', hid, hkind, hn, -⟩
  rw [hfields] at hfields'
  obtain ⟨rfl, rfl, rfl, rfl⟩ : id = id' ∧ kind = kind' ∧ n = n' ∧ rest = [] := by
    simpa using hfields'
  obtain hrest | rfl | hother | ⟨d, hd, hnot⟩ := hbad
  · exact hrest rfl
  · exact hid rfl
  · exact hother hkind
  · exact absurd (hn.2.1 d hd) (by rw [hnot]; decide)

/-- The parser takes the form and nothing else, except on the values that slip through. -/
theorem parse_window_exact_iff (val : Str) :
    (∀ w, parseWindow val = .ok w ↔ IsWindow val w) ↔ ¬Slips val := by
  constructor
  · intro h hslips
    obtain ⟨w, hok, hnot⟩ := hslips.accepted
    exact hnot ((h w).mp hok)
  · exact fun h w => ⟨isWindow_of_not_slips h, IsWindow.parseWindow⟩

/-- A misspelt keyword makes a count window. -/
theorem parse_window_misspelt :
    parseWindow (lit "raw_trades, cuont, 64")
        = .ok { streamId := lit "raw_trades", timeBased := false, n := 64 }
      ∧ (¬∃ w, IsWindow (lit "raw_trades, cuont, 64") w)
      ∧ ¬∀ val w, parseWindow val = .ok w ↔ IsWindow val w := by
  have hok : parseWindow (lit "raw_trades, cuont, 64")
      = .ok { streamId := lit "raw_trades", timeBased := false, n := 64 } := by decide +kernel
  have hnot : ¬∃ w, IsWindow (lit "raw_trades, cuont, 64") w := by
    rintro ⟨w, id, kind, n, hfields, -, hkind, -⟩
    have hparts : windowFields (lit "raw_trades, cuont, 64")
        = [lit "raw_trades", lit "cuont", lit "64"] := by decide +kernel
    rw [hparts] at hfields
    obtain ⟨-, rfl, -⟩ : lit "raw_trades" = id ∧ lit "cuont" = kind ∧ lit "64" = n := by
      simpa using hfields
    exact absurd hkind (by unfold IsKind; decide)
  exact ⟨hok, hnot, fun h => hnot ⟨_, (h _ _).mp hok⟩⟩

end Mawmaw.Conf
