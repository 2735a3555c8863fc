import Mathlib.Algebra.BigOperators.Group.Finset.Basic
import Mathlib.Algebra.Order.Ring.Int

/-!
# Accumulators shared by several calls

Calls, each with a value, update one shared cell atomic step by atomic step.

* `casRound` : a round of the loop that puts a better value into the cell by compare-and-exchange;
* `Tracks` : while some calls are still in their loops, the cell is at least as good as the values
  of the calls that are past it, and is the value of one of them or the initial one;
* `Tracks.load`, `Tracks.cas` : the steps of one call keep it;
* `sum_filter_update` : the sum over the calls that have added their value, when one more has.
-/

namespace Mawmaw.Lib

variable {α ι : Type}

/-- A strict order any two of whose elements are comparable up to being equally good. -/
structure IsBetter (better : α → α → Bool) : Prop where
  irrefl : ∀ a, better a a = false
  trans : ∀ a b c, better a b = true → better b c = true → better a c = true
  negTrans : ∀ a b c, better a b = false → better b c = false → better a c = false

/-- One round of `while (better(x, cur) && !cell.compare_exchange_weak(cur, x))`: what `cur` is for
the next round, if there is one, and the cell. The weak exchange may fail on an equal value. -/
def casRound [DecidableEq α] (better : α → α → Bool) (x cur : α) (fails : Bool) (cell : α) :
    Option α × α :=
  if better x cur then
    if cell = cur ∧ fails = false then (none, x) else (some cell, cell)
  else (none, cell)

/-- A round on the value just loaded, with nobody else around, is the last one. -/
theorem casRound_alone [DecidableEq α] (better : α → α → Bool) (x cell : α) :
    casRound better x cell false cell = (none, if better x cell then x else cell) := by
  unfold casRound
  split <;> simp

/-- Where a call is: before its loop, in it with the value last loaded, or past it. -/
inductive Stage (α : Type)
  | before
  | looping (cur : α)
  | past
  deriving DecidableEq

structure Tracks (better : α → α → Bool) (init cell : α) (calls : Finset ι) (x : ι → α)
    (stage : ι → Stage α) : Prop where
  past : ∀ i ∈ calls, stage i = .past → better (x i) cell = false
  looping : ∀ i ∈ calls, ∀ cur, stage i = .looping cur → better cur cell = false
  mem : cell = init ∨ ∃ i ∈ calls, stage i = .past ∧ cell = x i

namespace Tracks
variable {better : α → α → Bool} {init cell : α} {calls : Finset ι} {x : ι → α}
  {stage stage' : ι → Stage α}

theorem empty (better : α → α → Bool) (init : α) (x : ι → α) (stage : ι → Stage α) :
    Tracks better init init ∅ x stage where
  past i hi := absurd hi (Finset.notMem_empty i)
  looping i hi := absurd hi (Finset.notMem_empty i)
  mem := Or.inl rfl

theorem congr (h : Tracks better init cell calls x stage)
    (hstage : ∀ i ∈ calls, stage' i = stage i) : Tracks better init cell calls x stage' := by
  refine ⟨fun i hi hp => h.past i hi ?_, fun i hi cur hl => h.looping i hi cur ?_, ?_⟩
  · rw [← hstage i hi]
    exact hp
  · rw [← hstage i hi]
    exact hl
  · rcases h.mem with hinit | ⟨i, hi, hp, hx⟩
    · exact Or.inl hinit
    · exact Or.inr ⟨i, hi, (hstage i hi).trans hp, hx⟩

variable [DecidableEq ι]

/-- A new call. -/
theorem insert (h : Tracks better init cell calls x stage) {i : ι} (hi : stage i = .before) :
    Tracks better init cell (insert i calls) x stage := by
  refine ⟨fun j hj hp => ?_, fun j hj cur hl => ?_, ?_⟩
  · rcases Finset.mem_insert.mp hj with rfl | hj
    · rw [hi] at hp
      cases hp
    · exact h.past j hj hp
  · rcases Finset.mem_insert.mp hj with rfl | hj
    · rw [hi] at hl
      cases hl
    · exact h.looping j hj cur hl
  · rcases h.mem with hinit | ⟨j, hj, hp, hx⟩
    · exact Or.inl hinit
    · exact Or.inr ⟨j, Finset.mem_insert_of_mem hj, hp, hx⟩

/-- A call that has not come past its loop goes on, and the cell changes for the better or not. -/
theorem set (h : Tracks better init cell calls x stage) {i : ι} {cell' : α} {new : Stage α}
    (hcell : ∀ y, better y cell = false → better y cell' = false)
    (hpast : new = .past → better (x i) cell' = false)
    (hlooping : ∀ cur, new = .looping cur → better cur cell' = false)
    (hmem : cell' = init ∨ ∃ j ∈ calls, Function.update stage i new j = .past ∧ cell' = x j) :
    Tracks better init cell' calls x (Function.update stage i new) where
  past := by
    refine (Function.forall_update_iff stage
      fun j y => j ∈ calls → y = .past → better (x j) cell' = false).2 ⟨fun _ => hpast, ?_⟩
    exact fun j _ hj hp => hcell _ (h.past j hj hp)
  looping := by
    refine (Function.forall_update_iff stage
      fun j y => j ∈ calls → ∀ cur, y = .looping cur → better cur cell' = false).2
        ⟨fun _ => hlooping, ?_⟩
    exact fun j _ hj cur hl => hcell _ (h.looping j hj cur hl)
  mem := hmem

/-- The call whose value the cell holds is another one. -/
theorem mem_update (h : Tracks better init cell calls x stage) {i : ι} (hi : stage i ≠ .past)
    (new : Stage α) :
    cell = init ∨ ∃ j ∈ calls, Function.update stage i new j = .past ∧ cell = x j := by
  rcases h.mem with hinit | ⟨j, hj, hp, hx⟩
  · exact Or.inl hinit
  · have hji : j ≠ i := fun heq => hi (heq ▸ hp)
    exact Or.inr ⟨j, hj, by rw [Function.update_of_ne hji]; exact hp, hx⟩

/-- A call loads the cell. -/
theorem load (hb : IsBetter better) (h : Tracks better init cell calls x stage) {i : ι}
    (hi : stage i ≠ .past) :
    Tracks better init cell calls x (Function.update stage i (.looping cell)) := by
  refine h.set (fun _ => id) (fun hp => ?_) (fun cur hl => ?_) (h.mem_update hi _)
  · cases hp
  · obtain rfl := Stage.looping.inj hl
    exact hb.irrefl _

/-- A call whose value is no better than the cell's leaves its loop. -/
theorem leave (h : Tracks better init cell calls x stage) {i : ι} (hi : stage i ≠ .past)
    (hx : better (x i) cell = false) :
    Tracks better init cell calls x (Function.update stage i .past) := by
  refine h.set (fun _ => id) (fun _ => hx) (fun cur hl => ?_) (h.mem_update hi _)
  cases hl

/-- A call puts a better value into the cell. -/
theorem exchange (hb : IsBetter better) (h : Tracks better init cell calls x stage) {i : ι}
    (hi : i ∈ calls) (hx : better (x i) cell = true) :
    Tracks better init (x i) calls x (Function.update stage i .past) := by
  -- what the cell's value beats, the new value beats
  have hbeats : ∀ y, better y cell = false → better y (x i) = false := by
    intro y hy
    cases hyx : better y (x i) with
    | false => rfl
    | true =>
        rw [hb.trans _ _ _ hyx hx] at hy
        cases hy
  refine h.set hbeats (fun _ => hb.irrefl _) (fun cur hl => ?_)
    (Or.inr ⟨i, hi, Function.update_self .., rfl⟩)
  cases hl

/-- A round of a call's loop. -/
theorem cas [DecidableEq α] (hb : IsBetter better) (h : Tracks better init cell calls x stage)
    {i : ι} (hi : i ∈ calls) {cur : α} (hstage : stage i = .looping cur) (fails : Bool) :
    Tracks better init (casRound better (x i) cur fails cell).2 calls x
      (Function.update stage i ((casRound better (x i) cur fails cell).1.elim .past .looping)) := by
  have hpast : stage i ≠ .past := by rw [hstage]; simp
  unfold casRound
  split
  · rename_i hbetter
    split
    · rename_i hsame
      rw [← hsame.1] at hbetter
      exact h.exchange hb hi hbetter
    · exact h.load hb hpast
  · rename_i hnot
    refine h.leave hpast ?_
    exact hb.negTrans _ _ _ (by simpa using hnot) (h.looping i hi cur hstage)

end Tracks

/-- One more call has added its value. -/
theorem sum_filter_update {β : Type} [DecidableEq ι] {calls : Finset ι} (w : ι → Nat)
    {phase : ι → β} {has : β → Bool} {i : ι} {b : β} (hi : i ∈ calls)
    (hbefore : has (phase i) = false) (hafter : has b = true) :
    ∑ j ∈ calls with (has ∘ Function.update phase i b) j, w j
      = (∑ j ∈ calls with (has ∘ phase) j, w j) + w i := by
  have hset : (calls.filter fun j => (has ∘ Function.update phase i b) j = true)
      = insert i (calls.filter fun j => (has ∘ phase) j = true) := by
    ext j
    simp only [Finset.mem_filter, Finset.mem_insert, Function.comp_apply]
    by_cases hji : j = i
    · subst hji
      simp [hi, hafter]
    · simp [hji]
  rw [hset, Finset.sum_insert (by simp [hbefore]), add_comm]

end Mawmaw.Lib
