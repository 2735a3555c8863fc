import Mathlib.Data.Fintype.Card
import Mawmaw.Core.StreamRouter

/-!
# Several producers on one ring

`RingBuffer::write` as the three steps a concurrent thread can be interrupted between: load the
counter, store the slot, store the counter plus one. `n` calls, each by a thread of its own, run
under an arbitrary schedule.

* `Writers`, `step`, `run` : the ring, how far each call is, and one step of one call;
* `run_alone` : the three steps of one call, uninterrupted, are `RingBuffer.write`;
* `Serial` : no call loads the counter while another is between its load and its last store;
* `Serialized` : the state of a run that has been serial so far; `Late` : of one that has not.
-/

namespace Mawmaw.Core
open Mawmaw.Lib

variable {T : Type} {n : Nat}

/-- How far one call of `write` is, with the sequence number it loaded. -/
inductive Phase
  | idle
  | loaded (seq : UInt64)
  | stored (seq : UInt64)
  | done (seq : UInt64)
  deriving DecidableEq, Repr

namespace Phase

/-- Between the load of the counter and its store. -/
def inFlight : Phase → Bool
  | .loaded _ | .stored _ => true
  | .idle | .done _ => false

def isDone : Phase → Bool
  | .done _ => true
  | _ => false

end Phase

namespace RingBuffer

/-- `slots_[seq & mask_] = item`. -/
def storeSlot (r : RingBuffer T) (seq : UInt64) (item : T) : RingBuffer T :=
  { r with slots := r.slots.set (r.slotOf seq) item }

/-- `write_seq_.store(seq)`. -/
def storeSeq (r : RingBuffer T) (seq : UInt64) : RingBuffer T := { r with writeSeq := seq }

theorem write_eq_stores (r : RingBuffer T) (item : T) :
    (r.write item).2 = (r.storeSlot r.writeSeq item).storeSeq (r.writeSeq + 1) := rfl

theorem slot_storeSlot (r : RingBuffer T) (seq seq' : UInt64) (item : T) :
    (r.storeSlot seq item).slot seq' = if seq'.toNat % r.capacity.size = seq.toNat % r.capacity.size
      then item else r.slot seq' := by
  have hset : (r.storeSlot seq item).slot seq'
      = if (r.slotOf seq).val = (r.slotOf seq').val then item else r.slot seq' :=
    Vector.getElem_set (r.slotOf seq).isLt (r.slotOf seq').isLt
  rw [hset, slotOf_val, slotOf_val]
  exact if_congr eq_comm rfl rfl

end RingBuffer

/-- The shared ring and the phase of every call. -/
structure Writers (T : Type) (n : Nat) where
  ring : RingBuffer T
  pc : Fin n → Phase

namespace Writers

def init (ring : RingBuffer T) : Writers T n := { ring, pc := fun _ => .idle }

/-- Call `i` goes on to phase `x`, leaving the ring as `r`. -/
def advance (s : Writers T n) (i : Fin n) (r : RingBuffer T) (x : Phase) : Writers T n :=
  { ring := r, pc := Function.update s.pc i x }

@[simp] theorem advance_ring (s : Writers T n) (i : Fin n) (r : RingBuffer T) (x : Phase) :
    (s.advance i r x).ring = r := rfl

@[simp] theorem advance_pc_self (s : Writers T n) (i : Fin n) (r : RingBuffer T) (x : Phase) :
    (s.advance i r x).pc i = x := Function.update_self ..

theorem advance_pc_ne (s : Writers T n) {i j : Fin n} (r : RingBuffer T) (x : Phase) (h : j ≠ i) :
    (s.advance i r x).pc j = s.pc j := Function.update_of_ne h ..

/-- The next step of call `i`, which writes `item i`. -/
def step (item : Fin n → T) (s : Writers T n) (i : Fin n) : Writers T n :=
  match s.pc i with
  | .idle => s.advance i s.ring (.loaded s.ring.writeSeq)
  | .loaded seq => s.advance i (s.ring.storeSlot seq (item i)) (.stored seq)
  | .stored seq => s.advance i (s.ring.storeSeq (seq + 1)) (.done seq)
  | .done _ => s

/-- A schedule: the calls in the order they take their steps. -/
def run (item : Fin n → T) (s : Writers T n) (schedule : List (Fin n)) : Writers T n :=
  schedule.foldl (step item) s

/-- Every load happens while no call is in flight. -/
def Serial (item : Fin n → T) : Writers T n → List (Fin n) → Prop
  | _, [] => True
  | s, i :: is =>
    (s.pc i = .idle → ∀ j, (s.pc j).inFlight = false) ∧ Serial item (s.step item i) is

/-- The three steps of one call, with no other step in between, are one `write`. -/
theorem run_alone (item : Fin n → T) (s : Writers T n) (i : Fin n) (h : s.pc i = .idle) :
    (s.run item [i, i, i]).ring = (s.ring.write (item i)).2 := by
  simp [run, step, h, RingBuffer.write_eq_stores, advance]

/-- The calls that have loaded the counter. -/
def started (s : Writers T n) : Nat := (Finset.univ.filter fun i => s.pc i ≠ .idle).card

theorem started_le (s : Writers T n) : s.started ≤ n := by
  exact (Finset.card_filter_le _ _).trans (by simp)

theorem started_of_idle {s : Writers T n} {i : Fin n} (h : s.pc i = .idle) (r : RingBuffer T)
    {x : Phase} (hx : x ≠ .idle) : (s.advance i r x).started = s.started + 1 := by
  have hset : (Finset.univ.filter fun j => (s.advance i r x).pc j ≠ .idle)
      = insert i (Finset.univ.filter fun j => s.pc j ≠ .idle) := by
    ext j
    by_cases hj : j = i
    · subst hj
      simp [hx]
    · simp [hj, advance_pc_ne]
  rw [started, hset, Finset.card_insert_of_notMem (by simp [h]), started]

theorem started_of_ne_idle {s : Writers T n} {i : Fin n} (h : s.pc i ≠ .idle) (r : RingBuffer T)
    {x : Phase} (hx : x ≠ .idle) : (s.advance i r x).started = s.started := by
  have hset : (Finset.univ.filter fun j => (s.advance i r x).pc j ≠ .idle)
      = Finset.univ.filter fun j => s.pc j ≠ .idle := by
    ext j
    by_cases hj : j = i
    · subst hj
      simp [hx, h]
    · simp [hj, advance_pc_ne]
  rw [started, hset, started]

theorem started_of_done {s : Writers T n} (h : ∀ i, (s.pc i).isDone = true) : s.started = n := by
  have hne : ∀ i, s.pc i ≠ .idle := fun i hi => by
    have := h i
    rw [hi] at this
    cases this
  rw [started, Finset.filter_true_of_mem fun i _ => hne i, Finset.card_univ, Fintype.card_fin]

/-! ## Overlapping calls -/

section Runs
variable (ring : RingBuffer T) (item : Fin n → T)

/-- Some load has overlapped another call: the counter, and every counter still to be stored, is
behind the number of calls started. -/
structure Late (s : Writers T n) : Prop where
  head : ∃ d, s.ring.writeSeq = RingBuffer.seqAt ring.writeSeq d ∧ d < s.started
  flight : ∀ i seq, s.pc i = .loaded seq ∨ s.pc i = .stored seq →
    ∃ v, seq = RingBuffer.seqAt ring.writeSeq v ∧ v + 1 < s.started

/-- The counters in flight after one call has gone on: its own, or one that was in flight. -/
theorem flight_advance {s : Writers T n} {i : Fin n} {r : RingBuffer T} {x : Phase}
    {j : Fin n} {seq : UInt64}
    (hj : (s.advance i r x).pc j = .loaded seq ∨ (s.advance i r x).pc j = .stored seq) :
    (j = i ∧ (x = .loaded seq ∨ x = .stored seq)) ∨
      (j ≠ i ∧ (s.pc j = .loaded seq ∨ s.pc j = .stored seq)) := by
  by_cases hji : j = i
  · subst hji
    rw [advance_pc_self] at hj
    exact Or.inl ⟨rfl, hj⟩
  · rw [advance_pc_ne _ _ _ hji] at hj
    exact Or.inr ⟨hji, hj⟩

/-- Where a call has begun already, its steps begin no other. -/
theorem ne_idle_of_advance {s : Writers T n} {i j : Fin n} (hi : s.pc i ≠ .idle)
    (r : RingBuffer T) (x : Phase) (hj : (s.advance i r x).pc j ≠ .idle) : s.pc j ≠ .idle := by
  by_cases hji : j = i
  · rw [hji]
    exact hi
  · rwa [advance_pc_ne _ _ _ hji] at hj

theorem Late.step {s : Writers T n} (h : Late ring s) (i : Fin n) : Late ring (s.step item i) := by
  obtain ⟨d, hd, hlt⟩ := h.head
  unfold Writers.step
  split
  · rename_i hpc
    have hstart := started_of_idle hpc s.ring (x := .loaded s.ring.writeSeq) (by simp)
    refine ⟨⟨d, hd, by rw [hstart]; omega⟩, fun j seq hj => ?_⟩
    rw [hstart]
    rcases flight_advance hj with ⟨-, hx⟩ | ⟨-, hx⟩
    · obtain rfl : s.ring.writeSeq = seq := by simpa using hx
      exact ⟨d, hd, by omega⟩
    · obtain ⟨v, hv, hvlt⟩ := h.flight j seq hx
      exact ⟨v, hv, by omega⟩
  · rename_i q hpc
    have hstart := started_of_ne_idle (s := s) (i := i) (by rw [hpc]; simp)
      (s.ring.storeSlot q (item i)) (x := .stored q) (by simp)
    refine ⟨⟨d, hd, by rw [hstart]; exact hlt⟩, fun j seq hj => ?_⟩
    rw [hstart]
    rcases flight_advance hj with ⟨rfl, hx⟩ | ⟨-, hx⟩
    · obtain rfl : q = seq := by simpa using hx
      exact h.flight j q (Or.inl hpc)
    · exact h.flight j seq hx
  · rename_i q hpc
    have hstart := started_of_ne_idle (s := s) (i := i) (by rw [hpc]; simp)
      (s.ring.storeSeq (q + 1)) (x := .done q) (by simp)
    obtain ⟨v, hv, hvlt⟩ := h.flight i q (Or.inr hpc)
    refine ⟨⟨v + 1, ?_, by rw [hstart]; exact hvlt⟩, fun j seq hj => ?_⟩
    · rw [← RingBuffer.seqAt_add_one, ← hv]
      rfl
    · rw [hstart]
      rcases flight_advance hj with ⟨-, hx⟩ | ⟨-, hx⟩
      · simp at hx
      · exact h.flight j seq hx
  · exact h

theorem Late.run {s : Writers T n} (h : Late ring s) (schedule : List (Fin n)) :
    Late ring (s.run item schedule) := by
  induction schedule generalizing s with
  | nil => exact h
  | cons i is ih => exact ih (h.step ring item i)

theorem Late.head_ne {s : Writers T n} (h : Late ring s) (hn : n ≤ ring.capacity.size) :
    s.ring.writeSeq ≠ RingBuffer.seqAt ring.writeSeq n := by
  obtain ⟨d, hd, hlt⟩ := h.head
  have hle := s.started_le
  have hcap := ring.capacity.size_lt
  rw [hd]
  exact RingBuffer.seqAt_ne _ (by omega) (by omega)

/-! ## Calls one after the other -/

/-- The run has been serial so far: call `i` has claimed position `pos i`, at most one call, the
`owner`, is in flight, and every item stored is in the slot of its position. -/
structure Serialized (s : Writers T n) (pos : Fin n → Nat) (owner : Option (Fin n)) : Prop where
  capacity : s.ring.capacity = ring.capacity
  pos_lt : ∀ i, s.pc i ≠ .idle → pos i < s.started
  pos_inj : ∀ i j, s.pc i ≠ .idle → s.pc j ≠ .idle → pos i = pos j → i = j
  flight : ∀ i seq, s.pc i = .loaded seq ∨ s.pc i = .stored seq →
    owner = some i ∧ seq = RingBuffer.seqAt ring.writeSeq (pos i)
  owner_flight : ∀ i, owner = some i → (s.pc i).inFlight = true ∧ pos i + 1 = s.started
  head : s.ring.writeSeq = RingBuffer.seqAt ring.writeSeq (owner.elim s.started pos)
  slot : ∀ i, (∃ seq, s.pc i = .stored seq ∨ s.pc i = .done seq) →
    s.ring.slot (RingBuffer.seqAt ring.writeSeq (pos i)) = item i

theorem serialized_init : Serialized ring item (init ring) (fun _ => 0) none where
  capacity := rfl
  pos_lt _ h := absurd rfl h
  pos_inj _ _ h _ _ := absurd rfl h
  flight _ _ h := by simp [init] at h
  owner_flight _ h := by cases h
  head := by simp [init, started, RingBuffer.seqAt]
  slot _ h := by simp [init] at h

variable {ring item} {s : Writers T n} {pos : Fin n → Nat} {owner : Option (Fin n)}

theorem Serialized.load (h : Serialized ring item s pos owner) {i : Fin n} (hpc : s.pc i = .idle)
    (halone : ∀ j, (s.pc j).inFlight = false) :
    Serialized ring item (s.advance i s.ring (.loaded s.ring.writeSeq))
      (Function.update pos i s.started) (some i) := by
  have hstart := started_of_idle hpc s.ring (x := .loaded s.ring.writeSeq) (by simp)
  have hnone : owner = none := by
    cases ho : owner with
    | none => rfl
    | some j =>
        have hj := (h.owner_flight j ho).1
        rw [halone j] at hj
        cases hj
  have hhead : s.ring.writeSeq = RingBuffer.seqAt ring.writeSeq s.started := by
    have := h.head
    rwa [hnone] at this
  have hlt : ∀ j, j ≠ i → (s.advance i s.ring (.loaded s.ring.writeSeq)).pc j ≠ .idle →
      pos j < s.started := by
    intro j hj hne
    rw [advance_pc_ne _ _ _ hj] at hne
    exact h.pos_lt j hne
  refine ⟨h.capacity, fun j hj => ?_, fun j k hj hk hjk => ?_, fun j seq hj => ?_, fun j hj => ?_,
    ?_, fun j hj => ?_⟩
  · rw [hstart]
    by_cases hji : j = i
    · subst hji
      rw [Function.update_self]
      omega
    · rw [Function.update_of_ne hji]
      have := hlt j hji hj
      omega
  · by_cases hji : j = i <;> by_cases hki : k = i
    · rw [hji, hki]
    · subst hji
      rw [Function.update_self, Function.update_of_ne hki] at hjk
      have := hlt k hki hk
      omega
    · subst hki
      rw [Function.update_self, Function.update_of_ne hji] at hjk
      have := hlt j hji hj
      omega
    · rw [Function.update_of_ne hji, Function.update_of_ne hki] at hjk
      rw [advance_pc_ne _ _ _ hji] at hj
      rw [advance_pc_ne _ _ _ hki] at hk
      exact h.pos_inj j k hj hk hjk
  · rcases flight_advance hj with ⟨rfl, hx⟩ | ⟨-, hx⟩
    · obtain rfl : s.ring.writeSeq = seq := by simpa using hx
      rw [Function.update_self]
      exact ⟨rfl, hhead⟩
    · have := (h.flight j seq hx).1
      rw [hnone] at this
      cases this
  · obtain rfl := Option.some.inj hj
    rw [advance_pc_self, Function.update_self, hstart]
    exact ⟨rfl, rfl⟩
  · rw [Option.elim_some, Function.update_self]
    exact hhead
  · obtain ⟨seq, hj⟩ := hj
    by_cases hji : j = i
    · subst hji
      rw [advance_pc_self] at hj
      simp at hj
    · rw [advance_pc_ne _ _ _ hji] at hj
      rw [Function.update_of_ne hji]
      exact h.slot j ⟨seq, hj⟩

/-- The owner stores its item; the other items are in other slots. -/
theorem Serialized.store (h : Serialized ring item s pos owner) (hn : n ≤ ring.capacity.size)
    {i : Fin n} {q : UInt64} (hpc : s.pc i = .loaded q) :
    Serialized ring item (s.advance i (s.ring.storeSlot q (item i)) (.stored q)) pos owner := by
  have hne : s.pc i ≠ .idle := by rw [hpc]; simp
  have hstart := started_of_ne_idle hne (s.ring.storeSlot q (item i)) (x := .stored q) (by simp)
  obtain ⟨howner, hq⟩ := h.flight i q (Or.inl hpc)
  have hold := fun j => ne_idle_of_advance (j := j) hne (s.ring.storeSlot q (item i)) (.stored q)
  refine ⟨h.capacity, fun j hj => ?_, fun j k hj hk hjk => ?_, fun j seq hj => ?_, fun j hj => ?_,
    ?_, fun j hj => ?_⟩
  · rw [hstart]
    exact h.pos_lt j (hold j hj)
  · exact h.pos_inj j k (hold j hj) (hold k hk) hjk
  · rcases flight_advance hj with ⟨rfl, hx⟩ | ⟨-, hx⟩
    · obtain rfl : q = seq := by simpa using hx
      exact ⟨howner, hq⟩
    · exact h.flight j seq hx
  · obtain rfl : j = i := Option.some.inj (hj.symm.trans howner)
    rw [advance_pc_self, hstart]
    exact ⟨rfl, (h.owner_flight j hj).2⟩
  · rw [hstart]
    exact h.head
  · rw [advance_ring, RingBuffer.slot_storeSlot, hq, h.capacity, RingBuffer.seqAt_mod,
      RingBuffer.seqAt_mod]
    by_cases hji : j = i
    · rw [hji, if_pos rfl]
    · obtain ⟨seq, hj⟩ := hj
      rw [advance_pc_ne _ _ _ hji] at hj
      have hjne : s.pc j ≠ .idle := by rcases hj with hj | hj <;> rw [hj] <;> simp
      have hpos : pos j ≠ pos i := fun heq => hji (h.pos_inj j i hjne hne heq)
      have hlti := h.pos_lt i hne
      have hltj := h.pos_lt j hjne
      have hle := s.started_le
      rw [if_neg]
      · exact h.slot j ⟨seq, hj⟩
      · intro heq
        have := eq_of_mod_eq heq (by omega) (by omega)
        omega

theorem Serialized.publish (h : Serialized ring item s pos owner) {i : Fin n} {q : UInt64}
    (hpc : s.pc i = .stored q) :
    Serialized ring item (s.advance i (s.ring.storeSeq (q + 1)) (.done q)) pos none := by
  have hne : s.pc i ≠ .idle := by rw [hpc]; simp
  have hstart := started_of_ne_idle hne (s.ring.storeSeq (q + 1)) (x := .done q) (by simp)
  obtain ⟨howner, hq⟩ := h.flight i q (Or.inr hpc)
  have hold := fun j => ne_idle_of_advance (j := j) hne (s.ring.storeSeq (q + 1)) (.done q)
  refine ⟨h.capacity, fun j hj => ?_, fun j k hj hk hjk => ?_, fun j seq hj => ?_, fun j hj => ?_,
    ?_, fun j hj => ?_⟩
  · rw [hstart]
    exact h.pos_lt j (hold j hj)
  · exact h.pos_inj j k (hold j hj) (hold k hk) hjk
  · rcases flight_advance hj with ⟨-, hx⟩ | ⟨hji, hx⟩
    · simp at hx
    · exact absurd (Option.some.inj ((h.flight j seq hx).1.symm.trans howner)) hji
  · cases hj
  · rw [hstart, Option.elim_none, ← (h.owner_flight i howner).2, ← RingBuffer.seqAt_add_one, ← hq]
    rfl
  · by_cases hji : j = i
    · rw [hji]
      exact h.slot i ⟨q, Or.inl hpc⟩
    · obtain ⟨seq, hj⟩ := hj
      rw [advance_pc_ne _ _ _ hji] at hj
      exact h.slot j ⟨seq, hj⟩

theorem Serialized.step (h : Serialized ring item s pos owner) (hn : n ≤ ring.capacity.size)
    (i : Fin n) (halone : s.pc i = .idle → ∀ j, (s.pc j).inFlight = false) :
    ∃ pos' owner', Serialized ring item (s.step item i) pos' owner' := by
  unfold Writers.step
  split
  · rename_i hpc
    exact ⟨_, _, h.load hpc (halone hpc)⟩
  · rename_i q hpc
    exact ⟨_, _, h.store hn hpc⟩
  · rename_i q hpc
    exact ⟨_, _, h.publish hpc⟩
  · exact ⟨_, _, h⟩

/-- A load while another call is in flight makes the run late. -/
theorem Serialized.late (h : Serialized ring item s pos owner) {i : Fin n} (hpc : s.pc i = .idle)
    {j : Fin n} (hj : (s.pc j).inFlight = true) : Late ring (s.step item i) := by
  have hstart := started_of_idle hpc s.ring (x := .loaded s.ring.writeSeq) (by simp)
  have howner : owner = some j := by
    cases hpcj : s.pc j with
    | loaded q => exact (h.flight j q (Or.inl hpcj)).1
    | stored q => exact (h.flight j q (Or.inr hpcj)).1
    | idle => rw [hpcj] at hj; cases hj
    | done q => rw [hpcj] at hj; cases hj
  have hpos := (h.owner_flight j howner).2
  have hhead : s.ring.writeSeq = RingBuffer.seqAt ring.writeSeq (pos j) := by
    have := h.head
    rwa [howner] at this
  have hstep : s.step item i = s.advance i s.ring (.loaded s.ring.writeSeq) := by
    rw [Writers.step, hpc]
  rw [hstep]
  refine ⟨⟨pos j, hhead, by rw [hstart]; omega⟩, fun k seq hk => ?_⟩
  rw [hstart]
  rcases flight_advance hk with ⟨-, hx⟩ | ⟨-, hx⟩
  · obtain rfl : s.ring.writeSeq = seq := by simpa using hx
    exact ⟨pos j, hhead, by omega⟩
  · obtain ⟨hk', hseq⟩ := h.flight k seq hx
    obtain rfl : k = j := Option.some.inj (hk'.symm.trans howner)
    exact ⟨pos k, hseq, by omega⟩

theorem Serialized.run (h : Serialized ring item s pos owner) (hn : n ≤ ring.capacity.size)
    (schedule : List (Fin n)) (hserial : Serial item s schedule) :
    ∃ pos' owner', Serialized ring item (s.run item schedule) pos' owner' := by
  induction schedule generalizing s pos owner with
  | nil => exact ⟨pos, owner, h⟩
  | cons i is ih =>
      obtain ⟨pos', owner', h'⟩ := h.step hn i hserial.1
      exact ih h' hserial.2

theorem Serialized.run_late (h : Serialized ring item s pos owner) (hn : n ≤ ring.capacity.size)
    (schedule : List (Fin n)) (hserial : ¬ Serial item s schedule) :
    Late ring (s.run item schedule) := by
  induction schedule generalizing s pos owner with
  | nil => exact absurd trivial hserial
  | cons i is ih =>
      by_cases halone : s.pc i = .idle → ∀ j, (s.pc j).inFlight = false
      · obtain ⟨pos', owner', h'⟩ := h.step hn i halone
        exact ih h' fun hrest => hserial ⟨halone, hrest⟩
      · obtain ⟨hpc, hnot⟩ := Classical.not_imp.mp halone
        obtain ⟨j, hj⟩ := not_forall.mp hnot
        exact (h.late hpc (by simpa using hj)).run ring item is

end Runs

/-! ## What is left after all calls have returned -/

/-- The head has grown by the number of calls, and every item is held at a sequence number of its
own. -/
def AllKept (ring : RingBuffer T) (item : Fin n → T) (s : Writers T n) : Prop :=
  s.ring.writeSeq = RingBuffer.seqAt ring.writeSeq n ∧
    ∃ pos : Fin n → Fin n, Function.Injective pos ∧
      ∀ i, s.ring.slot (RingBuffer.seqAt ring.writeSeq (pos i)) = item i

theorem Serialized.allKept {ring : RingBuffer T} {item : Fin n → T} {s : Writers T n}
    {pos : Fin n → Nat} {owner : Option (Fin n)} (h : Serialized ring item s pos owner)
    (hdone : ∀ i, (s.pc i).isDone = true) : AllKept ring item s := by
  have hstart := started_of_done hdone
  have hpc : ∀ i, ∃ q, s.pc i = .done q := by
    intro i
    have hi := hdone i
    cases hpci : s.pc i with
    | done q => exact ⟨q, rfl⟩
    | idle => rw [hpci] at hi; cases hi
    | loaded q => rw [hpci] at hi; cases hi
    | stored q => rw [hpci] at hi; cases hi
  have hne : ∀ i, s.pc i ≠ .idle := by
    intro i
    obtain ⟨q, hq⟩ := hpc i
    rw [hq]
    simp
  have hnone : owner = none := by
    cases ho : owner with
    | none => rfl
    | some j =>
        obtain ⟨q, hq⟩ := hpc j
        have hj := (h.owner_flight j ho).1
        rw [hq] at hj
        cases hj
  refine ⟨?_, fun i => ⟨pos i, ?_⟩, fun i j hij => ?_, fun i => ?_⟩
  · rw [h.head, hnone, Option.elim_none, hstart]
  · have := h.pos_lt i (hne i)
    omega
  · exact h.pos_inj i j (hne i) (hne j) (Fin.val_eq_of_eq hij)
  · obtain ⟨q, hq⟩ := hpc i
    exact h.slot i ⟨q, Or.inr hq⟩

/-- **Concurrent producers.** When all of at most `capacity` calls have returned, no item is lost
exactly when no call loaded the counter while another was in flight. -/
theorem allKept_iff_serial (ring : RingBuffer T) (item : Fin n → T) (schedule : List (Fin n))
    (hn : n ≤ ring.capacity.size)
    (hdone : ∀ i, (((init ring).run item schedule).pc i).isDone = true) :
    AllKept ring item ((init ring).run item schedule) ↔ Serial item (init ring) schedule := by
  have hinit := serialized_init ring item
  refine ⟨?_, ?_⟩
  · intro hkept
    by_contra hserial
    exact (hinit.run_late hn schedule hserial).head_ne ring hn hkept.1
  · intro hserial
    obtain ⟨pos, owner, h⟩ := hinit.run hn schedule hserial
    exact h.allKept hdone

/-- The queue and the two events of the examples below. -/
def pairRing : RingBuffer (Event 76) := RingBuffer.new .two

def pairItem (i : Fin 2) : Event 76 := { sequence := UInt64.ofNat i + 1 }

theorem allKept_iff_serial_pair :
    AllKept pairRing pairItem ((init pairRing).run pairItem [0, 0, 0, 1, 1, 1])
      ↔ Serial pairItem (init pairRing) [0, 0, 0, 1, 1, 1] :=
  allKept_iff_serial pairRing pairItem [0, 0, 0, 1, 1, 1] (by decide) (by decide)

/-- Two calls step by step in turn: both load the same counter, and one event is gone. -/
theorem not_allKept_interleaved :
    (∀ i, (((init pairRing).run pairItem [0, 1, 0, 1, 0, 1]).pc i).isDone = true) ∧
    ¬ AllKept pairRing pairItem ((init pairRing).run pairItem [0, 1, 0, 1, 0, 1]) :=
  ⟨by decide, fun h => absurd h.1 (by decide)⟩

end Writers

end Mawmaw.Core
