import Mawmaw.Lib.Schedule

/-!
# Runs that come to an end

Infinite schedules of a system in which every turn changes nothing or lowers a rank.

* `stateAt step s turns n` : the state after the first `n` turns;
* `Fair` : each turn of a kind is taken again and again;
* `RunsDown.lower` : a state with a turn left that lowers the rank is followed by one of lower rank;
* `RunsDown.reaches` : a fair schedule reaches a state where no such turn is left;
* `FairTo` : everyone takes turns again and again;
* `LedBy.reaches` : a goal to which each state has an owner whose turns lead closer.
-/

namespace Mawmaw.Lib

variable {σ τ : Type} {step : σ → τ → σ} {s : σ} {turns : Nat → τ}

def stateAt (step : σ → τ → σ) (s : σ) (turns : Nat → τ) (n : Nat) : σ :=
  ((List.range n).map turns).foldl step s

theorem stateAt_succ (n : Nat) :
    stateAt step s turns (n + 1) = step (stateAt step s turns n) (turns n) := by
  rw [stateAt, List.range_succ, List.map_append, List.foldl_append]
  rfl

theorem stateAt_keeps {Inv : σ → Prop} (hstep : ∀ s t, Inv s → Inv (step s t)) (h : Inv s)
    (n : Nat) : Inv (stateAt step s turns n) := foldl_keeps hstep _ s h

/-- What holds from the `n`-th state on, if every turn keeps it. -/
theorem stateAt_keeps_from {Inv : σ → Prop} (hstep : ∀ s t, Inv s → Inv (step s t)) {n : Nat}
    (h : Inv (stateAt step s turns n)) (m : Nat) : Inv (stateAt step s turns (n + m)) := by
  induction m with
  | zero => exact h
  | succ m ih =>
      rw [← Nat.add_assoc, stateAt_succ]
      exact hstep _ _ ih

/-- Every turn of the kind comes after every moment. -/
def Fair (kind : τ → Prop) (turns : Nat → τ) : Prop := ∀ t, kind t → ∀ n, ∃ m, n ≤ m ∧ turns m = t

/-- In the states that meet `Inv` a turn changes nothing or lowers the rank, and before the end some
turn of the kind lowers it. -/
structure RunsDown (step : σ → τ → σ) (Inv Done : σ → Prop) (kind : τ → Prop) (rank : σ → Nat) :
    Prop where
  keeps : ∀ s t, Inv s → Inv (step s t)
  lowers : ∀ s t, Inv s → step s t = s ∨ rank (step s t) < rank s
  live : ∀ s, Inv s → ¬ Done s → ∃ t, kind t ∧ rank (step s t) < rank s

namespace RunsDown
variable {Inv Done : σ → Prop} {kind : τ → Prop} {rank : σ → Nat}

/-- Up to a turn, the state stays or the rank is lower. -/
theorem stays (h : RunsDown step Inv Done kind rank) {n : Nat}
    (hinv : Inv (stateAt step s turns n)) (k : Nat) :
    stateAt step s turns (n + k) = stateAt step s turns n ∨
      ∃ m, n ≤ m ∧ rank (stateAt step s turns m) < rank (stateAt step s turns n) := by
  induction k with
  | zero => exact Or.inl rfl
  | succ k ih =>
      rcases ih with hsame | hlow
      · rw [← Nat.add_assoc, stateAt_succ, hsame]
        rcases h.lowers _ (turns (n + k)) hinv with hstill | hlt
        · exact Or.inl hstill
        · refine Or.inr ⟨n + k + 1, by omega, ?_⟩
          rw [stateAt_succ, hsame]
          exact hlt
      · exact Or.inr hlow

theorem lower (h : RunsDown step Inv Done kind rank) (hfair : Fair kind turns) {n : Nat}
    (hinv : Inv (stateAt step s turns n)) (hdone : ¬ Done (stateAt step s turns n)) :
    ∃ m, n ≤ m ∧ rank (stateAt step s turns m) < rank (stateAt step s turns n) := by
  obtain ⟨t, hkind, hlt⟩ := h.live _ hinv hdone
  obtain ⟨m, hnm, hturn⟩ := hfair t hkind n
  obtain ⟨k, rfl⟩ := Nat.exists_eq_add_of_le hnm
  rcases h.stays hinv k with hsame | hlow
  · refine ⟨n + k + 1, by omega, ?_⟩
    rw [stateAt_succ, hsame, hturn]
    exact hlt
  · exact hlow

/-- **A fair schedule reaches the end**, from any moment on. -/
theorem reaches (h : RunsDown step Inv Done kind rank) (hfair : Fair kind turns) (n : Nat)
    (hinv : Inv (stateAt step s turns n)) : ∃ m, n ≤ m ∧ Done (stateAt step s turns m) := by
  induction hr : rank (stateAt step s turns n) using Nat.strong_induction_on generalizing n with
  | _ r ih =>
      by_cases hdone : Done (stateAt step s turns n)
      · exact ⟨n, Nat.le_refl n, hdone⟩
      · obtain ⟨m, hnm, hlt⟩ := h.lower hfair hinv hdone
        obtain ⟨k, rfl⟩ := Nat.exists_eq_add_of_le hnm
        obtain ⟨m', hm', hend⟩ := ih _ (hr ▸ hlt) (n + k) (stateAt_keeps_from h.keeps hinv k) rfl
        exact ⟨m', by omega, hend⟩

end RunsDown

/-! ## Whose turn it is -/

variable {κ α : Type}

def FairTo (who : τ → κ) (turns : Nat → τ) : Prop := ∀ k n, ∃ m, n ≤ m ∧ who (turns m) = k

/-- In the states that meet `Inv` a turn reaches the goal or lowers the rank, unless it is not the
owner's and leaves the rank and the owner. -/
structure LedBy [LT α] (step : σ → τ → σ) (Inv Goal : σ → Prop) (who : τ → κ) (owner : σ → κ)
    (rank : σ → α) : Prop where
  keeps : ∀ s t, Inv s → Inv (step s t)
  turn : ∀ s t, Inv s → Goal (step s t) ∨ rank (step s t) < rank s ∨
    rank (step s t) = rank s ∧ owner (step s t) = owner s ∧ who t ≠ owner s

namespace LedBy
variable [LT α] {Inv Goal : σ → Prop} {who : τ → κ} {owner : σ → κ} {rank : σ → α}

/-- Up to a turn, the goal or a lower rank is reached, or rank and owner are the same. -/
theorem stays_to (h : LedBy step Inv Goal who owner rank) {n : Nat}
    (hinv : Inv (stateAt step s turns n)) (j : Nat) :
    (∃ m, n ≤ m ∧ (Goal (stateAt step s turns m) ∨
        rank (stateAt step s turns m) < rank (stateAt step s turns n))) ∨
      rank (stateAt step s turns (n + j)) = rank (stateAt step s turns n) ∧
        owner (stateAt step s turns (n + j)) = owner (stateAt step s turns n) := by
  induction j with
  | zero => exact Or.inr ⟨rfl, rfl⟩
  | succ j ih =>
      refine ih.elim Or.inl fun ⟨hrank, howner⟩ => ?_
      have hsucc : stateAt step s turns (n + j + 1)
          = step (stateAt step s turns (n + j)) (turns (n + j)) := stateAt_succ (n + j)
      have hturn := h.turn _ (turns (n + j)) (stateAt_keeps_from h.keeps hinv j)
      rw [hrank, howner, ← hsucc] at hturn
      rcases hturn with hgoal | hlow | ⟨hrank', howner', -⟩
      · exact Or.inl ⟨n + j + 1, by omega, Or.inl hgoal⟩
      · exact Or.inl ⟨n + j + 1, by omega, Or.inr hlow⟩
      · exact Or.inr ⟨hrank', howner'⟩

theorem lower (h : LedBy step Inv Goal who owner rank) (hfair : FairTo who turns) {n : Nat}
    (hinv : Inv (stateAt step s turns n)) : ∃ m, n ≤ m ∧ (Goal (stateAt step s turns m) ∨
      rank (stateAt step s turns m) < rank (stateAt step s turns n)) := by
  obtain ⟨m, hnm, hwho⟩ := hfair (owner (stateAt step s turns n)) n
  obtain ⟨j, rfl⟩ := Nat.exists_eq_add_of_le hnm
  refine (h.stays_to hinv j).elim id fun ⟨hrank, howner⟩ => ⟨n + j + 1, by omega, ?_⟩
  rw [stateAt_succ, ← hrank]
  rcases h.turn _ (turns (n + j)) (stateAt_keeps_from h.keeps hinv j) with hgoal | hlow | ⟨-, -, hne⟩
  · exact Or.inl hgoal
  · exact Or.inr hlow
  · exact absurd (hwho.trans howner.symm) hne

/-- **A goal every owner comes closer to is reached**, from any moment on. -/
theorem reaches [WellFoundedLT α] (h : LedBy step Inv Goal who owner rank)
    (hfair : FairTo who turns) (n : Nat) (hinv : Inv (stateAt step s turns n)) :
    ∃ m, n ≤ m ∧ Goal (stateAt step s turns m) := by
  induction hr : rank (stateAt step s turns n) using WellFoundedLT.induction generalizing n with
  | _ r ih =>
      obtain ⟨m, hnm, hgoal | hlt⟩ := h.lower hfair hinv
      · exact ⟨m, hnm, hgoal⟩
      · obtain ⟨j, rfl⟩ := Nat.exists_eq_add_of_le hnm
        obtain ⟨m', hm', hend⟩ := ih _ (hr ▸ hlt) (n + j) (stateAt_keeps_from h.keeps hinv j) rfl
        exact ⟨m', by omega, hend⟩

end LedBy

end Mawmaw.Lib
