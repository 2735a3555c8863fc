import Mathlib.Data.Prod.Lex
import Mathlib.Logic.Function.Basic
import Mathlib.Order.WithBot
import Mawmaw.Lib.Progress
import Mawmaw.Lib.Schedule

/-!
# Shutting threads down

One thread tells others to end, waits for them, and frees what they used.

* `Threads` : what each thread does next and what it uses for that; `Threads.Stop` : once told, it comes
  to its end;
* `StopOp`, `Stopping`, `step` : the program of the thread that ends the others, and one turn;
* `WellOrdered` : who uses a part is waited for before it is freed, who is waited for was told, and
  nothing is used after it was freed;
* `uses_live` : no turn of any run uses what was freed;
* `comes_to_end` : every fair schedule finishes the program.
-/

namespace Mawmaw.Lib

variable {ι κ γ α χ β : Type}

/-- `step i told g x c` : what thread `i`, at `c`, does next with the input `x`, when it reads `told`
from its flag and `g` from what is shared. -/
structure Threads (ι κ γ α χ : Type) where
  step : ι → Bool → γ → α → χ → χ
  uses : ι → χ → List κ
  ended : χ → Bool

namespace Threads

/-- A thread that has ended does nothing; one that was told to end comes closer to it. -/
structure Stop [LT β] (T : Threads ι κ γ α χ) (rank : ι → χ → β) : Prop where
  uses_nil : ∀ i c, T.ended c = true → T.uses i c = []
  stays : ∀ i told g x c, T.ended c = true → T.ended (T.step i told g x c) = true
  lowers : ∀ i g x c, T.ended c = false →
    T.ended (T.step i true g x c) = true ∨ rank i (T.step i true g x c) < rank i c

end Threads

/-- `flag who`: the threads `who` accepts are told to end. -/
inductive StopOp (ι κ γ : Type)
  | touch (ks : List κ) (f : γ → γ)
  | flag (ks : List κ) (who : ι → Bool)
  | join (i : ι)
  | free (k : κ)

namespace StopOp

def uses : StopOp ι κ γ → List κ
  | .touch ks _ | .flag ks _ => ks
  | .join _ => []
  | .free k => [k]

def freed : StopOp ι κ γ → Option κ
  | .free k => some k
  | _ => none

end StopOp

/-- The threads, what they share, and the program that ends them: what of it is done and what is left. -/
structure Stopping (ι κ γ χ : Type) where
  shared : γ
  phase : ι → χ
  told : ι → Bool
  past : List (StopOp ι κ γ)
  left : List (StopOp ι κ γ)

inductive StopTurn (ι α : Type)
  | main
  | thread (i : ι) (x : α)

/-- Whose turn it is; `none` is the thread that ends the others. -/
def StopTurn.who : StopTurn ι α → Option ι
  | .main => none
  | .thread i _ => some i

namespace Stopping

def begin (g : γ) (phase : ι → χ) (prog : List (StopOp ι κ γ)) : Stopping ι κ γ χ where
  shared := g
  phase := phase
  told _ := false
  past := []
  left := prog

/-- What an operation does apart from taking its turn. -/
def effect (s : Stopping ι κ γ χ) : StopOp ι κ γ → Stopping ι κ γ χ
  | .touch _ f => { s with shared := f s.shared }
  | .flag _ who => { s with told := fun i => who i || s.told i }
  | .join _ | .free _ => s

/-- A `join` waits for its thread; everything else goes on. -/
def ready (T : Threads ι κ γ α χ) (s : Stopping ι κ γ χ) : StopOp ι κ γ → Bool
  | .join i => T.ended (s.phase i)
  | _ => true

def mainStep (T : Threads ι κ γ α χ) (s : Stopping ι κ γ χ) : Stopping ι κ γ χ :=
  match s.left with
  | [] => s
  | op :: rest =>
    if s.ready T op then { s.effect op with past := s.past ++ [op], left := rest } else s

variable [DecidableEq ι]

def threadStep (T : Threads ι κ γ α χ) (s : Stopping ι κ γ χ) (i : ι) (x : α) :
    Stopping ι κ γ χ :=
  { s with phase := Function.update s.phase i (T.step i (s.told i) s.shared x (s.phase i)) }

def step (T : Threads ι κ γ α χ) (s : Stopping ι κ γ χ) : StopTurn ι α → Stopping ι κ γ χ
  | .main => s.mainStep T
  | .thread i x => s.threadStep T i x

/-- What a turn uses. -/
def uses (T : Threads ι κ γ α χ) (s : Stopping ι κ γ χ) : StopTurn ι α → List κ
  | .main => s.left.head?.elim [] StopOp.uses
  | .thread i _ => T.uses i (s.phase i)

/-- Nothing a turn uses has been freed. -/
def UsesLive (T : Threads ι κ γ α χ) (s : Stopping ι κ γ χ) (t : StopTurn ι α) : Prop :=
  ∀ k ∈ s.uses T t, .free k ∉ s.past

end Stopping

/-! ## The order of a program -/

/-- `a` may come before `b`. -/
structure MayPrecede (T : Threads ι κ γ α χ) (a b : StopOp ι κ γ) : Prop where
  told : ∀ i ks who, a = .join i → b = .flag ks who → who i = false
  unused : ∀ k, a = .free k → k ∉ b.uses
  awaited : ∀ k i c, a = .free k → b = .join i → k ∉ T.uses i c

namespace MayPrecede
variable {T : Threads ι κ γ α χ} {b : StopOp ι κ γ}

theorem touch {ks : List κ} {f : γ → γ} : MayPrecede T (.touch ks f) b :=
  ⟨by simp, by simp, by simp⟩

theorem flag {ks : List κ} {who : ι → Bool} : MayPrecede T (.flag ks who) b :=
  ⟨by simp, by simp, by simp⟩

theorem join {i : ι} (h : ∀ ks who, b = .flag ks who → who i = false) : MayPrecede T (.join i) b where
  told j ks who heq hb := by
    obtain rfl := StopOp.join.inj heq
    exact h ks who hb
  unused _ heq := by cases heq
  awaited _ _ _ heq := by cases heq

theorem free {k : κ} (hunused : k ∉ b.uses) (hawaited : ∀ i c, b = .join i → k ∉ T.uses i c) :
    MayPrecede T (.free k) b where
  told _ _ _ heq := by cases heq
  unused j heq := by
    obtain rfl := StopOp.free.inj heq
    exact hunused
  awaited j i c heq hb := by
    obtain rfl := StopOp.free.inj heq
    exact hawaited i c hb

end MayPrecede

structure WellOrdered (T : Threads ι κ γ α χ) (phase : ι → χ) (prog : List (StopOp ι κ γ)) : Prop where
  order : prog.Pairwise (MayPrecede T)
  told : ∀ i, .join i ∈ prog → ∃ ks who, .flag ks who ∈ prog ∧ who i = true
  awaited : ∀ k i c, .free k ∈ prog → T.ended (phase i) = false → k ∈ T.uses i c → .join i ∈ prog

namespace WellOrdered
variable {T : Threads ι κ γ α χ} {phase : ι → χ} {past rest : List (StopOp ι κ γ)} {i : ι} {k : κ}

/-- A thread was told to end before it is waited for. -/
theorem told_before (h : WellOrdered T phase (past ++ .join i :: rest)) :
    ∃ ks who, .flag ks who ∈ past ∧ who i = true := by
  obtain ⟨ks, who, hmem, hwho⟩ := h.told i (List.mem_append_right _ (List.mem_cons_self ..))
  refine ⟨ks, who, ?_, hwho⟩
  rcases List.mem_append.mp hmem with hpast | hlate
  · exact hpast
  · have hrest : StopOp.flag ks who ∈ rest := by
      rcases List.mem_cons.mp hlate with heq | hrest
      · cases heq
      · exact hrest
    have hpair := (List.pairwise_append.mp h.order).2.1
    have hfalse := ((List.pairwise_cons.mp hpair).1 _ hrest).told i ks who rfl rfl
    rw [hwho] at hfalse
    cases hfalse

/-- A thread was waited for before a part it uses is freed. -/
theorem awaited_before (h : WellOrdered T phase (past ++ rest)) (hfree : .free k ∈ past)
    (hphase : T.ended (phase i) = false) {c : χ} (huse : k ∈ T.uses i c) : .join i ∈ past := by
  have hmem := h.awaited k i c (List.mem_append_left _ hfree) hphase huse
  refine (List.mem_append.mp hmem).resolve_right fun hlate => ?_
  exact ((List.pairwise_append.mp h.order).2.2 _ hfree _ hlate).awaited k i c rfl rfl huse

theorem unused_after (h : WellOrdered T phase (past ++ rest)) (hfree : .free k ∈ past)
    {op : StopOp ι κ γ} (hop : op ∈ rest) : k ∉ op.uses :=
  ((List.pairwise_append.mp h.order).2.2 _ hfree _ hop).unused k rfl

end WellOrdered

/-! ## Safety -/

namespace Stopping
variable {T : Threads ι κ γ α χ} {phase : ι → χ} {prog : List (StopOp ι κ γ)} {s : Stopping ι κ γ χ}

/-- The program is done up to some point: who was waited for has ended, who was told reads so. -/
structure Inv (T : Threads ι κ γ α χ) (phase : ι → χ) (prog : List (StopOp ι κ γ))
    (s : Stopping ι κ γ χ) : Prop where
  split : s.past ++ s.left = prog
  joined : ∀ i, .join i ∈ s.past → T.ended (s.phase i) = true
  told : ∀ i ks who, .flag ks who ∈ s.past → who i = true → s.told i = true
  ended : ∀ i, T.ended (phase i) = true → T.ended (s.phase i) = true

theorem inv_begin (g : γ) : Inv T phase prog (begin g phase prog) where
  split := rfl
  joined _ hmem := absurd hmem List.not_mem_nil
  told _ _ _ hmem := absurd hmem List.not_mem_nil
  ended _ hend := hend

theorem effect_phase (op : StopOp ι κ γ) : (s.effect op).phase = s.phase := by
  cases op <;> rfl

theorem effect_told (op : StopOp ι κ γ) (i : ι) (h : s.told i = true) : (s.effect op).told i = true := by
  cases op with
  | flag ks who =>
      show (who i || s.told i) = true
      rw [h, Bool.or_true]
  | touch | join | free => exact h

theorem Inv.mainStep (h : Inv T phase prog s) : Inv T phase prog (s.mainStep T) := by
  unfold Stopping.mainStep
  split
  · exact h
  · rename_i op rest hleft
    split
    · rename_i hready
      refine ⟨?_, fun i hmem => ?_, fun i ks who hmem hwho => ?_, fun i hend => ?_⟩
      · show (s.past ++ [op]) ++ rest = prog
        rw [List.append_assoc, List.singleton_append, ← hleft, h.split]
      · show T.ended ((s.effect op).phase i) = true
        rw [effect_phase]
        rcases List.mem_append.mp hmem with hpast | hlast
        · exact h.joined i hpast
        · obtain rfl := List.mem_singleton.mp hlast
          exact hready
      · show (s.effect op).told i = true
        rcases List.mem_append.mp hmem with hpast | hlast
        · exact effect_told op i (h.told i ks who hpast hwho)
        · obtain rfl := List.mem_singleton.mp hlast
          show (who i || s.told i) = true
          rw [hwho, Bool.true_or]
      · show T.ended ((s.effect op).phase i) = true
        rw [effect_phase]
        exact h.ended i hend
    · exact h

variable [DecidableEq ι] [LT β] {rank : ι → χ → β}

theorem ended_threadStep (hT : T.Stop rank) {i j : ι} {x : α} (h : T.ended (s.phase j) = true) :
    T.ended ((s.threadStep T i x).phase j) = true := by
  show T.ended (Function.update s.phase i _ j) = true
  by_cases hji : j = i
  · subst hji
    rw [Function.update_self]
    exact hT.stays _ _ _ _ _ h
  · rw [Function.update_of_ne hji]
    exact h

theorem Inv.step (hT : T.Stop rank) (s : Stopping ι κ γ χ) (t : StopTurn ι α)
    (h : Inv T phase prog s) : Inv T phase prog (s.step T t) := by
  cases t with
  | main => exact h.mainStep
  | thread i x =>
      exact ⟨h.split, fun j hmem => ended_threadStep hT (h.joined j hmem), h.told,
        fun j hend => ended_threadStep hT (h.ended j hend)⟩

omit [DecidableEq ι] in
theorem Inv.usesLive (hT : T.Stop rank) (hprog : WellOrdered T phase prog) (h : Inv T phase prog s)
    (t : StopTurn ι α) : s.UsesLive T t := by
  intro k huse hfree
  have hsplit : WellOrdered T phase (s.past ++ s.left) := h.split ▸ hprog
  cases t with
  | main =>
      unfold uses at huse
      cases hleft : s.left with
      | nil =>
          rw [hleft] at huse
          exact absurd huse List.not_mem_nil
      | cons op rest =>
          rw [hleft] at huse
          exact hsplit.unused_after hfree (hleft ▸ List.mem_cons_self ..) huse
  | thread i x =>
      have huse : k ∈ T.uses i (s.phase i) := huse
      cases hend : T.ended (s.phase i) with
      | true =>
          rw [hT.uses_nil i _ hend] at huse
          exact absurd huse List.not_mem_nil
      | false =>
          -- the thread was alive from the start, so it was waited for, and has ended
          have hphase : T.ended (phase i) = false := by
            cases hphase : T.ended (phase i) with
            | false => rfl
            | true => exact absurd (h.ended i hphase) (hend ▸ Bool.false_ne_true)
          have hjoined := h.joined i (hsplit.awaited_before hfree hphase huse)
          rw [hend] at hjoined
          cases hjoined

/-- **Nothing is used after it was freed**, in any interleaving. -/
theorem uses_live (hT : T.Stop rank) (hprog : WellOrdered T phase prog) (g : γ)
    (turns : List (StopTurn ι α)) : Along (step T) (UsesLive T) (begin g phase prog) turns := by
  exact Along.of_inv (fun s t h => h.step hT s t) (fun _ t h => h.usesLive hT hprog t) turns _
    (inv_begin g)

/-! ## Progress -/

/-- The thread the program waits for. -/
def awaited (T : Threads ι κ γ α χ) (s : Stopping ι κ γ χ) : Option ι :=
  match s.left with
  | .join i :: _ => if T.ended (s.phase i) then none else some i
  | _ => none

/-- What is left of the program, and of the thread it waits for. -/
def toGo (T : Threads ι κ γ α χ) (rank : ι → χ → β) (s : Stopping ι κ γ χ) : Nat ×ₗ WithBot β :=
  toLex (s.left.length, (s.awaited T).elim ⊥ fun i => (rank i (s.phase i) : WithBot β))

omit [DecidableEq ι] [LT β] in
theorem awaited_eq_some {i : ι} : s.awaited T = some i ↔
    ∃ rest, s.left = .join i :: rest ∧ T.ended (s.phase i) = false := by
  unfold awaited
  split
  · rename_i j rest hleft
    rw [hleft]
    cases hend : T.ended (s.phase j) with
    | true =>
        refine iff_of_false (by simp) ?_
        rintro ⟨rest', heq, hfalse⟩
        obtain rfl := StopOp.join.inj (List.cons.inj heq).1
        rw [hend] at hfalse
        cases hfalse
    | false =>
        simp only [Bool.false_eq_true, if_false, Option.some.injEq, List.cons.injEq,
          StopOp.join.injEq]
        constructor
        · rintro rfl
          exact ⟨rest, ⟨rfl, rfl⟩, hend⟩
        · rintro ⟨rest', ⟨hij, -⟩, -⟩
          exact hij
  · rename_i hnot
    refine iff_of_false (by simp) ?_
    rintro ⟨rest, heq, -⟩
    exact hnot i rest heq

omit [DecidableEq ι] in
/-- The thread that ends the others takes an operation off the program, or waits for a thread. -/
theorem mainStep_cases (s : Stopping ι κ γ χ) :
    (s.mainStep T).left.length < s.left.length ∨ s.mainStep T = s ∧
      (s.left = [] ∨ ∃ i, s.awaited T = some i) := by
  unfold Stopping.mainStep
  split
  · rename_i hleft
    exact Or.inr ⟨rfl, Or.inl hleft⟩
  · rename_i op rest hleft
    split
    · rw [hleft]
      exact Or.inl (Nat.lt_succ_self _)
    · rename_i hready
      refine Or.inr ⟨rfl, Or.inr ?_⟩
      cases op with
      | join i => exact ⟨i, awaited_eq_some.mpr ⟨rest, hleft, Bool.eq_false_iff.mpr hready⟩⟩
      | touch | flag | free => exact absurd rfl hready

/-- A thread that was told to end and takes its turn ends, or comes closer to it. -/
theorem lower_threadStep (hT : T.Stop rank) {i : ι} (x : α) (hawait : s.awaited T = some i)
    (htold : s.told i = true) : (s.threadStep T i x).toGo T rank < s.toGo T rank := by
  obtain ⟨rest, hleft, hend⟩ := awaited_eq_some.mp hawait
  have hphase : (s.threadStep T i x).phase i = T.step i true s.shared x (s.phase i) := by
    show Function.update s.phase i _ i = _
    rw [Function.update_self, htold]
  have hlow : ((s.threadStep T i x).awaited T).elim ⊥
      (fun j => (rank j ((s.threadStep T i x).phase j) : WithBot β)) < (rank i (s.phase i) : WithBot β) := by
    cases hend' : T.ended ((s.threadStep T i x).phase i) with
    | true =>
        have hnone : (s.threadStep T i x).awaited T = none := by
          refine Option.eq_none_iff_forall_ne_some.mpr fun j hj => ?_
          obtain ⟨rest', hleft', hfalse⟩ := awaited_eq_some.mp hj
          obtain rfl := StopOp.join.inj (List.cons.inj (hleft.symm.trans hleft')).1
          rw [hend'] at hfalse
          cases hfalse
        rw [hnone]
        exact WithBot.bot_lt_coe _
    | false =>
        have hsome : (s.threadStep T i x).awaited T = some i :=
          awaited_eq_some.mpr ⟨rest, hleft, hend'⟩
        rw [hsome, Option.elim_some, hphase, WithBot.coe_lt_coe]
        refine (hT.lowers i s.shared x (s.phase i) hend).resolve_left fun htrue => ?_
        rw [hphase, htrue] at hend'
        cases hend'
  rw [toGo, toGo, hawait]
  exact Prod.Lex.toLex_lt_toLex.mpr (Or.inr ⟨rfl, hlow⟩)

theorem same_threadStep (hT : T.Stop rank) {i : ι} (x : α) (hawait : s.awaited T ≠ some i) :
    (s.threadStep T i x).awaited T = s.awaited T ∧
      (s.threadStep T i x).toGo T rank = s.toGo T rank := by
  have hother : ∀ j, j ≠ i → (s.threadStep T i x).phase j = s.phase j :=
    fun j hji => Function.update_of_ne hji _ _
  have hsame : (s.threadStep T i x).awaited T = s.awaited T := by
    refine Option.ext fun j => ?_
    rw [awaited_eq_some, awaited_eq_some]
    by_cases hji : j = i
    · subst hji
      refine iff_of_false ?_ fun h => hawait (awaited_eq_some.mpr h)
      rintro ⟨rest, hleft, hend⟩
      refine hawait (awaited_eq_some.mpr ⟨rest, hleft, Bool.eq_false_iff.mpr fun htrue => ?_⟩)
      rw [ended_threadStep hT htrue] at hend
      cases hend
    · rw [hother j hji]
      exact Iff.rfl
  refine ⟨hsame, ?_⟩
  rw [toGo, toGo, hsame]
  cases hj : s.awaited T with
  | none => rfl
  | some j =>
      have hji : j ≠ i := by
        rintro rfl
        exact hawait hj
      rw [Option.elim_some, Option.elim_some, hother j hji]
      rfl

theorem ledBy (hT : T.Stop rank) (hprog : WellOrdered T phase prog) :
    LedBy (step T) (Inv T phase prog) (fun s => s.left = []) StopTurn.who (awaited T)
      (toGo T rank) where
  keeps s t h := h.step hT s t
  turn s t h := by
    cases t with
    | main =>
        rcases mainStep_cases (T := T) s with hless | ⟨hsame, hleft | ⟨i, hi⟩⟩
        · exact Or.inr (Or.inl (Prod.Lex.toLex_lt_toLex.mpr (Or.inl hless)))
        · refine Or.inl ?_
          show (s.mainStep T).left = []
          rw [hsame]
          exact hleft
        · refine Or.inr (Or.inr ⟨congrArg (toGo T rank) hsame, congrArg (awaited T) hsame, ?_⟩)
          rw [hi]
          exact (Option.some_ne_none i).symm
    | thread i x =>
        by_cases hawait : s.awaited T = some i
        · obtain ⟨rest, hleft, -⟩ := awaited_eq_some.mp hawait
          have hsplit := h.split
          rw [hleft] at hsplit
          obtain ⟨ks, who, hmem, hwho⟩ := WellOrdered.told_before (hsplit ▸ hprog)
          exact Or.inr (Or.inl (lower_threadStep hT x hawait (h.told i ks who hmem hwho)))
        · obtain ⟨howner, hrank⟩ := same_threadStep hT x hawait
          exact Or.inr (Or.inr ⟨hrank, howner, Ne.symm hawait⟩)

/-- **Every fair schedule finishes the program**; by then the threads it waits for have ended. -/
theorem comes_to_end [WellFoundedLT β] (hT : T.Stop rank) (hprog : WellOrdered T phase prog) (g : γ)
    {turns : Nat → StopTurn ι α} (hfair : FairTo StopTurn.who turns) :
    ∃ n, (stateAt (step T) (begin g phase prog) turns n).left = [] ∧
      (stateAt (step T) (begin g phase prog) turns n).past = prog ∧
      ∀ i, .join i ∈ prog → T.ended ((stateAt (step T) (begin g phase prog) turns n).phase i) = true := by
  have hreach : ∃ n, 0 ≤ n ∧ (stateAt (step T) (begin g phase prog) turns n).left = [] :=
    (ledBy hT hprog).reaches hfair 0 (inv_begin g)
  obtain ⟨n, -, hleft⟩ := hreach
  have hinv : Inv T phase prog (stateAt (step T) (begin g phase prog) turns n) :=
    stateAt_keeps (fun s t h => h.step hT s t) (inv_begin g) n
  have hsplit := hinv.split
  rw [hleft, List.append_nil] at hsplit
  exact ⟨n, hleft, hsplit, fun i hi => hinv.joined i (hsplit.symm ▸ hi)⟩

end Stopping

end Mawmaw.Lib
