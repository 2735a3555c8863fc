import Mawmaw.Lib.Numeral

/-!
# A text that arrives in pieces

* `Received`, `readUntil` : pieces are appended until a text is complete or the sender stops;
* `Cut` : the pieces of a text; `readUntil_cut` : what is read of them is a beginning of the text;
* `nextWord` : the word a stream reads; `TwoWords`, `TwoWords.of_longer` : the first two words of a
  text are those of a beginning that reaches past them.
-/

namespace Mawmaw.Lib

/-! ## Pieces -/

/-- What one call returns. -/
inductive Received
  | bytes (piece : Str)
  | closed
  | failed

/-- `waiting` : every call has returned, and another one is made. -/
inductive Reading
  | waiting
  | failed
  | ended (text : Str)
  deriving DecidableEq

/-- Pieces are appended until the text is complete or the sender has closed. -/
def readUntil (complete : Str → Bool) : Str → List Received → Reading
  | _, [] => .waiting
  | _, .failed :: _ => .failed
  | text, .closed :: _ => .ended text
  | text, .bytes piece :: calls =>
    if complete (text ++ piece) then .ended (text ++ piece)
    else readUntil complete (text ++ piece) calls

/-- Pieces of a text, none of them empty or longer than a buffer. -/
structure Cut (size : Nat) (s : Str) (ps : List Str) : Prop where
  whole : ps.flatten = s
  pos : ∀ p ∈ ps, 0 < p.length
  le : ∀ p ∈ ps, p.length ≤ size

/-- Where the whole is complete, reading ends with a complete beginning of it. -/
theorem readUntil_cut {complete : Str → Bool} (ps : List Str) {text : Str}
    (hstart : complete text = false) (hwhole : complete (text ++ ps.flatten) = true)
    (calls : List Received) :
    ∃ t, t <+: text ++ ps.flatten ∧ complete t = true
      ∧ readUntil complete text (ps.map .bytes ++ calls) = .ended t := by
  induction ps generalizing text with
  | nil =>
      rw [List.flatten_nil, List.append_nil, hstart] at hwhole
      cases hwhole
  | cons p ps ih =>
      rw [List.flatten_cons, ← List.append_assoc] at hwhole ⊢
      rw [List.map_cons, List.cons_append, readUntil]
      by_cases hnow : complete (text ++ p) = true
      · exact ⟨text ++ p, List.prefix_append _ _, hnow, if_pos hnow⟩
      · rw [if_neg hnow]
        exact ih (Bool.not_eq_true _ ▸ hnow) hwhole

/-- Reading that has ended is not changed by what comes later. -/
theorem readUntil_append {complete : Str → Bool} {calls : List Received} {text t : Str}
    (h : readUntil complete text calls = .ended t) (more : List Received) :
    readUntil complete text (calls ++ more) = .ended t := by
  induction calls generalizing text with
  | nil => cases h
  | cons r calls ih =>
      cases r with
      | failed => cases h
      | closed => exact h
      | bytes piece =>
          rw [List.cons_append]
          unfold readUntil at h ⊢
          split
          · rename_i hnow
            rwa [if_pos hnow] at h
          · rename_i hnow
            rw [if_neg hnow] at h
            exact ih h

/-! ## Words -/

/-- The next word and what follows it: `operator>>` into a string. -/
def nextWord (s : Str) : Str × Str :=
  let t := s.dropWhile isSpace
  (t.takeWhile fun b => !isSpace b, t.dropWhile fun b => !isSpace b)

def IsGap (s : Str) : Prop := ∀ b ∈ s, isSpace b = true

def IsWord (s : Str) : Prop := s ≠ [] ∧ ∀ b ∈ s, isSpace b = false

instance (s : Str) : Decidable (IsGap s) := List.decidableBAll _ s

instance (s : Str) : Decidable (IsWord s) :=
  have := List.decidableBAll (fun b => isSpace b = false) s
  inferInstanceAs (Decidable (_ ∧ _))

/-- The text begins with a blank, unless it is empty. -/
def Separated (s : Str) : Prop := ∀ b ∈ s.head?, isSpace b = true

theorem nextWord_append {gap word rest : Str} (hgap : IsGap gap) (hword : IsWord word)
    (hrest : Separated rest) : nextWord (gap ++ (word ++ rest)) = (word, rest) := by
  have hhead : ∀ b ∈ (word ++ rest).head?, isSpace b = false := by
    obtain ⟨b, word, rfl⟩ := List.exists_cons_of_ne_nil hword.1
    simpa using hword.2 b (.head _)
  have hin : ∀ b ∈ word, (!isSpace b) = true := fun b hb => by rw [hword.2 b hb]; rfl
  have hout : ∀ b ∈ rest.head?, (!isSpace b) = false := fun b hb => by rw [hrest b hb]; rfl
  unfold nextWord
  simp only [dropWhile_append_rest hgap hhead, takeWhile_append_rest hin hout,
    dropWhile_append_rest hin hout]

/-- The first two words of `s`, and where the second ends. -/
def TwoWords (s w₁ w₂ : Str) (stop : Nat) : Prop :=
  ∃ gap₁ gap₂ rest, s = gap₁ ++ (w₁ ++ (gap₂ ++ (w₂ ++ rest)))
    ∧ IsGap gap₁ ∧ IsWord w₁ ∧ IsGap gap₂ ∧ gap₂ ≠ [] ∧ IsWord w₂ ∧ Separated rest
    ∧ stop = (gap₁ ++ (w₁ ++ (gap₂ ++ w₂))).length

theorem TwoWords.nextWord {s w₁ w₂ : Str} {stop : Nat} (h : TwoWords s w₁ w₂ stop) :
    (nextWord s).1 = w₁ ∧ (nextWord (nextWord s).2).1 = w₂ := by
  obtain ⟨gap₁, gap₂, rest, rfl, hgap₁, hw₁, hgap₂, hne, hw₂, hrest, -⟩ := h
  have hsep : Separated (gap₂ ++ (w₂ ++ rest)) := by
    obtain ⟨b, gap, rfl⟩ := List.exists_cons_of_ne_nil hne
    intro c hc
    cases hc
    exact hgap₂ b (.head _)
  rw [nextWord_append hgap₁ hw₁ hsep, nextWord_append hgap₂ hw₂ hrest]
  exact ⟨rfl, rfl⟩

/-- A beginning that reaches past two words has the same two. -/
theorem TwoWords.of_longer {s t w₁ w₂ : Str} {stop : Nat} (h : TwoWords s w₁ w₂ stop)
    (ht : t <+: s) (hlong : stop < t.length) : TwoWords t w₁ w₂ stop := by
  obtain ⟨gap₁, gap₂, rest, rfl, hgap₁, hw₁, hgap₂, hne, hw₂, hrest, rfl⟩ := h
  have hsplit : gap₁ ++ (w₁ ++ (gap₂ ++ (w₂ ++ rest)))
      = gap₁ ++ (w₁ ++ (gap₂ ++ w₂)) ++ rest := by simp only [List.append_assoc]
  rw [hsplit] at ht
  obtain ⟨rest', rfl⟩ : gap₁ ++ (w₁ ++ (gap₂ ++ w₂)) <+: t :=
    List.prefix_of_prefix_length_le (List.prefix_append _ _) ht (Nat.le_of_lt hlong)
  have hbegin : rest' <+: rest := (List.prefix_append_right_inj _).mp ht
  refine ⟨gap₁, gap₂, rest', by simp only [List.append_assoc], hgap₁, hw₁, hgap₂, hne, hw₂,
    fun b hb => ?_, rfl⟩
  obtain ⟨u, rfl⟩ := hbegin
  apply hrest b
  rw [Option.mem_def, List.head?_append, Option.mem_def.mp hb]
  rfl

end Mawmaw.Lib
