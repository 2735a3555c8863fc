import Mathlib.Algebra.Order.Ring.Int

/-!
# Runs under a schedule

A system takes turns: `step s t` is the state after turn `t` from state `s`, a schedule is the list
of the turns in the order they are taken, and `ts.foldl step s` is the state after them.

* `foldl_keeps` : what every turn keeps, every run keeps;
* `Along step C s ts` : `C` holds at every turn of the run, of the state before it;
* `Along.append`; `Along.keeps`, `Along.imp`, `Along.iff` : the same for the runs whose turns all meet
  a condition;
* `along_iff_prefixes` : a condition that says exactly when a turn leads to a good state.
-/

namespace Mawmaw.Lib

variable {σ τ : Type} {step : σ → τ → σ}

theorem foldl_keeps {Inv : σ → Prop} (hstep : ∀ s t, Inv s → Inv (step s t)) (ts : List τ) :
    ∀ s, Inv s → Inv (ts.foldl step s) := by
  induction ts with
  | nil =>
      intro s h
      exact h
  | cons t ts ih =>
      intro s h
      exact ih (step s t) (hstep s t h)

/-- `C` holds of every turn and the state before it. -/
def Along (step : σ → τ → σ) (C : σ → τ → Prop) : σ → List τ → Prop
  | _, [] => True
  | s, t :: ts => C s t ∧ Along step C (step s t) ts

variable {C D : σ → τ → Prop}

instance Along.instDecidable [∀ s t, Decidable (C s t)] :
    ∀ s ts, Decidable (Along step C s ts)
  | _, [] => isTrue trivial
  | s, t :: ts =>
    have := Along.instDecidable (step s t) ts
    inferInstanceAs (Decidable (C s t ∧ Along step C (step s t) ts))

theorem Along.append {s : σ} {ts us : List τ} :
    Along step C s (ts ++ us) ↔ Along step C s ts ∧ Along step C (ts.foldl step s) us := by
  induction ts generalizing s with
  | nil => exact (and_iff_right trivial).symm
  | cons t ts ih =>
      rw [List.cons_append, Along, Along, ih, and_assoc, List.foldl_cons]

/-- What holds at every turn from a state of an invariant holds along every run. -/
theorem Along.of_inv {Inv : σ → Prop} (hstep : ∀ s t, Inv s → Inv (step s t))
    (hC : ∀ s t, Inv s → C s t) (ts : List τ) : ∀ s, Inv s → Along step C s ts := by
  induction ts with
  | nil =>
      intro s _
      exact trivial
  | cons t ts ih =>
      intro s h
      exact ⟨hC s t h, ih (step s t) (hstep s t h)⟩

/-- Every turn that meets `C` keeps the invariant, so a run whose turns all do keeps it. -/
theorem Along.keeps {Inv : σ → Prop} (hstep : ∀ s t, Inv s → C s t → Inv (step s t)) :
    ∀ {s : σ} {ts : List τ}, Inv s → Along step C s ts → Inv (ts.foldl step s) := by
  intro s ts
  induction ts generalizing s with
  | nil =>
      intro h _
      exact h
  | cons t ts ih =>
      intro h hC
      exact ih (hstep s t h hC.1) hC.2

/-- What an invariant says of a turn holds along the run. -/
theorem Along.imp {Inv : σ → Prop} (hstep : ∀ s t, Inv s → C s t → Inv (step s t))
    (himp : ∀ s t, Inv s → C s t → D s t) :
    ∀ {s : σ} {ts : List τ}, Inv s → Along step C s ts → Along step D s ts := by
  intro s ts
  induction ts generalizing s with
  | nil =>
      intro _ _
      exact trivial
  | cons t ts ih =>
      intro h hC
      exact ⟨himp s t h hC.1, ih (hstep s t h hC.1) hC.2⟩

/-- Two conditions that agree under an invariant of every turn hold along the same runs. -/
theorem Along.iff {Inv : σ → Prop} (hstep : ∀ s t, Inv s → Inv (step s t))
    (hiff : ∀ s t, Inv s → (C s t ↔ D s t)) {s : σ} {ts : List τ} (h : Inv s) :
    Along step C s ts ↔ Along step D s ts :=
  ⟨Along.imp (fun s t hs _ => hstep s t hs) (fun s t hs => (hiff s t hs).mp) h,
    Along.imp (fun s t hs _ => hstep s t hs) (fun s t hs => (hiff s t hs).mpr) h⟩

/-- Where a turn meets `C` exactly if it leads from a good state to a good one, a run meets `C`
throughout exactly if every state it goes through is good. -/
theorem along_iff_prefixes (C : σ → τ → Prop) (Inv Good : σ → Prop)
    (hinv : ∀ s t, Inv s → Inv (step s t))
    (hC : ∀ s t, Inv s → Good s → (C s t ↔ Good (step s t))) (ts : List τ) :
    ∀ s, Inv s → Good s → (Along step C s ts ↔ ∀ pre, pre <+: ts → Good (pre.foldl step s)) := by
  induction ts with
  | nil =>
      intro s _ hgood
      refine ⟨fun _ pre hpre => ?_, fun _ => trivial⟩
      rw [List.prefix_nil.mp hpre]
      exact hgood
  | cons t ts ih =>
      intro s hs hgood
      constructor
      · rintro ⟨ht, hts⟩ pre hpre
        cases pre with
        | nil => exact hgood
        | cons u pre =>
            obtain ⟨heq, hrest⟩ := List.cons_prefix_cons.mp hpre
            rw [heq, List.foldl_cons]
            exact (ih _ (hinv s t hs) ((hC s t hs hgood).mp ht)).mp hts pre hrest
      · intro h
        have hnext : Good (step s t) := h [t] (List.cons_prefix_cons.mpr ⟨rfl, List.nil_prefix⟩)
        refine ⟨(hC s t hs hgood).mpr hnext, (ih _ (hinv s t hs) hnext).mpr fun pre hpre => ?_⟩
        exact h (t :: pre) (List.cons_prefix_cons.mpr ⟨rfl, hpre⟩)

end Mawmaw.Lib
