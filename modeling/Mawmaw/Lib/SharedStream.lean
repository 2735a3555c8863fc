import Mathlib.Data.List.Infix
import Mathlib.Algebra.Order.Ring.Int

/-!
# A stream with several writers

Each writer `i` has a message `msg i` and appends it to one stream piece by piece. The stream is a
list of items tagged by their writer.

* `SharedStream.send` : writer `i` appends up to `n` more items of its message;
* `SharedStream.Inv` : the stream has of each message the part that was sent;
* `Framed` : whole messages one after the other, and at most a part of one more;
* `framed_send_iff` : a step from a framed stream leads to a framed stream exactly if nobody starts
  while another's message is partly sent.
-/

namespace Mawmaw.Lib

variable {ι α : Type}

structure SharedStream (ι α : Type) where
  sent : ι → Nat := fun _ => 0
  wire : List (ι × α) := []

/-- The items, tagged. -/
def tagged (i : ι) (l : List α) : List (ι × α) := l.map fun x => (i, x)

/-- Whole messages of different writers, and at most a part of one more. -/
def Framed (msg : ι → List α) (wire : List (ι × α)) : Prop :=
  ∃ done : List ι, done.Nodup ∧ ∃ tail, wire = (done.flatMap fun i => tagged i (msg i)) ++ tail ∧
    (tail = [] ∨ ∃ i, i ∉ done ∧ tail <+: tagged i (msg i))

theorem framed_nil (msg : ι → List α) : Framed msg [] := ⟨[], List.nodup_nil, [], rfl, Or.inl rfl⟩

/-- Without the tags. -/
theorem Framed.untagged {msg : ι → List α} {wire : List (ι × α)} (h : Framed msg wire) :
    ∃ done : List ι, done.Nodup ∧ ∃ tail, wire.map (·.2) = done.flatMap msg ++ tail ∧
      (tail = [] ∨ ∃ i, i ∉ done ∧ tail <+: msg i) := by
  have hsnd : ∀ i : ι, (tagged i (msg i)).map (·.2) = msg i := by
    intro i
    rw [tagged, List.map_map]
    exact List.map_id _
  obtain ⟨done, hnodup, tail, rfl, htail⟩ := h
  refine ⟨done, hnodup, tail.map (·.2), ?_, ?_⟩
  · rw [List.map_append, List.map_flatMap]
    simp only [hsnd]
  · rcases htail with rfl | ⟨i, hi, hprefix⟩
    · exact Or.inl rfl
    · refine Or.inr ⟨i, hi, ?_⟩
      rw [← hsnd i]
      exact hprefix.map _

namespace SharedStream
variable {msg : ι → List α} {s : SharedStream ι α}

/-- The next `n` items of a message. -/
def piece (msg : ι → List α) (s : SharedStream ι α) (i : ι) (n : Nat) : List α :=
  ((msg i).drop (s.sent i)).take n

theorem length_piece (msg : ι → List α) (s : SharedStream ι α) (i : ι) (n : Nat) :
    (s.piece msg i n).length = min n ((msg i).length - s.sent i) := by
  rw [piece, List.length_take, List.length_drop]

theorem take_append_piece (msg : ι → List α) (s : SharedStream ι α) (i : ι) (n : Nat) :
    (msg i).take (s.sent i) ++ s.piece msg i n
      = (msg i).take (s.sent i + (s.piece msg i n).length) := by
  rw [length_piece, List.take_add, piece]
  congr 1
  rw [← List.length_drop, List.take_eq_take_min]

theorem tag_of_getLast? {i : ι} {l : List α} {e : ι × α} (h : (tagged i l).getLast? = some e) :
    e.1 = i := by
  obtain ⟨x, -, rfl⟩ := List.mem_map.mp (List.mem_of_getLast? h)
  rfl

/-- The message is partly sent. -/
def Partial (msg : ι → List α) (s : SharedStream ι α) (i : ι) : Prop :=
  0 < s.sent i ∧ s.sent i < (msg i).length

variable [DecidableEq ι]

def send (msg : ι → List α) (s : SharedStream ι α) (i : ι) (n : Nat) : SharedStream ι α where
  sent := Function.update s.sent i (s.sent i + (s.piece msg i n).length)
  wire := s.wire ++ tagged i (s.piece msg i n)

/-- The items of one writer. -/
def itemsOf (wire : List (ι × α)) (i : ι) : List α := (wire.filter fun e => e.1 = i).map (·.2)

theorem itemsOf_append (wire wire' : List (ι × α)) (i : ι) :
    itemsOf (wire ++ wire') i = itemsOf wire i ++ itemsOf wire' i := by
  rw [itemsOf, List.filter_append, List.map_append, itemsOf, itemsOf]

theorem itemsOf_tagged_self (i : ι) (l : List α) : itemsOf (tagged i l) i = l := by
  rw [itemsOf, tagged, List.filter_map, List.map_map]
  simp [Function.comp_def]

theorem itemsOf_tagged_ne {i j : ι} (h : j ≠ i) (l : List α) : itemsOf (tagged j l) i = [] := by
  rw [itemsOf, List.map_eq_nil_iff, List.filter_eq_nil_iff]
  intro e he heq
  obtain ⟨x, -, rfl⟩ := List.mem_map.mp he
  exact h (of_decide_eq_true heq)

theorem itemsOf_flatMap {done : List ι} (hd : done.Nodup) (msg : ι → List α) (i : ι) :
    itemsOf (done.flatMap fun j => tagged j (msg j)) i = if i ∈ done then msg i else [] := by
  induction done with
  | nil => rfl
  | cons j done ih =>
      rw [List.flatMap_cons, itemsOf_append, ih (List.nodup_cons.mp hd).2]
      by_cases hji : j = i
      · subst hji
        rw [itemsOf_tagged_self, if_neg (List.nodup_cons.mp hd).1, List.append_nil,
          if_pos (List.mem_cons_self ..)]
      · rw [itemsOf_tagged_ne hji, List.nil_append]
        simp [Ne.symm hji]

structure Inv (msg : ι → List α) (s : SharedStream ι α) : Prop where
  sent_le : ∀ i, s.sent i ≤ (msg i).length
  items : ∀ i, itemsOf s.wire i = (msg i).take (s.sent i)

theorem inv_new (msg : ι → List α) : Inv msg {} where
  sent_le _ := Nat.zero_le _
  items _ := rfl

theorem Inv.send (h : Inv msg s) (i : ι) (n : Nat) : Inv msg (s.send msg i n) where
  sent_le j := by
    have hlen := length_piece msg s i n
    have hle := h.sent_le i
    rw [SharedStream.send]
    dsimp only
    by_cases hji : j = i
    · subst hji
      rw [Function.update_self]
      omega
    · rw [Function.update_of_ne hji]
      exact h.sent_le j
  items j := by
    rw [SharedStream.send]
    dsimp only
    rw [itemsOf_append, h.items j]
    by_cases hji : j = i
    · subst hji
      rw [itemsOf_tagged_self, Function.update_self, take_append_piece]
    · rw [itemsOf_tagged_ne (Ne.symm hji), Function.update_of_ne hji, List.append_nil]

/-- What a framed stream has of each message: the ones in `done` as a whole, and of the others
nothing but a part of one. -/
inductive Normal (msg : ι → List α) (s : SharedStream ι α) (done : List ι) : Prop
  | whole (hwire : s.wire = done.flatMap fun i => tagged i (msg i))
      (hother : ∀ j, j ∉ done → s.sent j = 0)
  | part (i : ι) (hi : i ∉ done) (hpart : Partial msg s i)
      (hwire : s.wire = (done.flatMap fun i => tagged i (msg i))
        ++ tagged i ((msg i).take (s.sent i)))
      (hother : ∀ j, j ∉ done → j ≠ i → s.sent j = 0)

theorem Inv.normal (h : Inv msg s) (hf : Framed msg s.wire) :
    ∃ done : List ι, done.Nodup ∧ (∀ j ∈ done, s.sent j = (msg j).length) ∧ Normal msg s done := by
  obtain ⟨done, hnodup, tail, hwire, htail⟩ := hf
  have hitems : ∀ j, (msg j).take (s.sent j) = (if j ∈ done then msg j else []) ++ itemsOf tail j := by
    intro j
    rw [← h.items j, hwire, itemsOf_append, itemsOf_flatMap hnodup]
  have hlen : ∀ j, s.sent j = ((msg j).take (s.sent j)).length := by
    intro j
    rw [List.length_take, Nat.min_eq_left (h.sent_le j)]
  have hdone : ∀ j ∈ done, s.sent j = (msg j).length := by
    intro j hj
    have hle := h.sent_le j
    have hsent := hlen j
    rw [hitems j, if_pos hj, List.length_append] at hsent
    omega
  have hzero : ∀ j, j ∉ done → itemsOf tail j = [] → s.sent j = 0 := by
    intro j hj hitem
    rw [hlen j, hitems j, if_neg hj, hitem]
    rfl
  rcases htail with rfl | ⟨i, hi, k, hk⟩
  · refine ⟨done, hnodup, hdone, .whole ?_ fun j hj => hzero j hj rfl⟩
    rw [hwire, List.append_nil]
  · -- the tail is what was sent of `i`'s message
    have htag : ∃ l, tail = tagged i l := by
      refine ⟨(msg i).take tail.length, ?_⟩
      rw [tagged, List.map_take, ← tagged, ← hk, List.take_left]
    obtain ⟨l, rfl⟩ := htag
    have hl : (msg i).take (s.sent i) = l := by
      rw [hitems i, if_neg hi, itemsOf_tagged_self, List.nil_append]
    have hother : ∀ j, j ∉ done → j ≠ i → s.sent j = 0 := fun j hj hji =>
      hzero j hj (itemsOf_tagged_ne (Ne.symm hji) l)
    rcases Nat.eq_zero_or_pos (s.sent i) with hnone | hpos
    · refine ⟨done, hnodup, hdone, .whole ?_ fun j hj => ?_⟩
      · rw [hwire, ← hl, hnone]
        exact List.append_nil _
      · by_cases hji : j = i
        · rw [hji]
          exact hnone
        · exact hother j hj hji
    rcases Nat.lt_or_ge (s.sent i) (msg i).length with hlt | hge
    · refine ⟨done, hnodup, hdone, .part i hi ⟨hpos, hlt⟩ ?_ hother⟩
      rw [hwire, hl]
    · have hall : s.sent i = (msg i).length := Nat.le_antisymm (h.sent_le i) hge
      refine ⟨done ++ [i], ?_, fun j hj => ?_, .whole ?_ fun j hj => ?_⟩
      · refine List.nodup_append.mpr ⟨hnodup, by simp, fun a ha b hb hab => ?_⟩
        rw [List.mem_singleton.mp hb] at hab
        exact hi (hab ▸ ha)
      · rcases List.mem_append.mp hj with hj | hj
        · exact hdone j hj
        · rw [List.mem_singleton.mp hj]
          exact hall
      · rw [hwire, ← hl, hall, List.take_length, List.flatMap_append]
        simp
      · rw [List.mem_append, List.mem_singleton, not_or] at hj
        exact hother j hj.1 hj.2

/-- A step from a framed stream leads to a framed stream exactly if nobody starts while another's
message is partly sent. -/
theorem Inv.framed_send_iff (h : Inv msg s) (hf : Framed msg s.wire) {i : ι} {n : Nat}
    (hpiece : s.piece msg i n ≠ []) :
    Framed msg (s.send msg i n).wire ↔ (s.sent i = 0 → ∀ j, ¬ Partial msg s j) := by
  have hlen := length_piece msg s i n
  have hpos := List.length_pos_of_ne_nil hpiece
  constructor
  · intro hf' hstart j hj
    have hji : j ≠ i := by
      rintro rfl
      exact absurd hj.1 (by omega)
    have hsent : (s.send msg i n).sent j = s.sent j := Function.update_of_ne hji ..
    obtain ⟨done, -, hdone, hnormal⟩ := (h.send i n).normal hf'
    have hjdone : j ∉ done := by
      intro hmem
      have hall := hdone j hmem
      rw [hsent] at hall
      exact absurd hj.2 (by omega)
    cases hnormal with
    | whole _ hother =>
        have hzero := hother j hjdone
        rw [hsent] at hzero
        exact absurd hj.1 (by omega)
    | part i' hi' hpart hwire hother =>
        have hji' : j = i' := by
          by_contra hne
          have hzero := hother j hjdone hne
          rw [hsent] at hzero
          exact absurd hj.1 (by omega)
        -- the last item is of `i`, and of `j`
        have hlast : (s.send msg i n).wire.getLast? = (tagged i (s.piece msg i n)).getLast? :=
          List.getLast?_append_of_ne_nil _ (by simpa [tagged] using hpiece)
        have hne : tagged i' ((msg i').take ((s.send msg i n).sent i')) ≠ [] := by
          rw [← List.length_pos_iff, tagged, List.length_map, List.length_take]
          have := hpart.1
          have := hpart.2
          omega
        have hlast' := hlast.symm.trans
          ((congrArg List.getLast? hwire).trans (List.getLast?_append_of_ne_nil _ hne))
        obtain ⟨e, he⟩ : ∃ e, (tagged i (s.piece msg i n)).getLast? = some e :=
          ⟨_, List.getLast?_eq_some_getLast (by simpa [tagged] using hpiece)⟩
        have hei := tag_of_getLast? he
        rw [hlast'] at he
        exact hji (hji'.trans ((tag_of_getLast? he).symm.trans hei))
  · intro hstart
    obtain ⟨done, hnodup, hdone, hnormal⟩ := h.normal hf
    have hnot : i ∉ done := by
      intro hmem
      have := hdone i hmem
      omega
    cases hnormal with
    | whole hwire hother =>
        have hzero := hother i hnot
        refine ⟨done, hnodup, tagged i (s.piece msg i n), ?_, Or.inr ⟨i, hnot, ?_⟩⟩
        · rw [SharedStream.send, hwire]
        · rw [tagged, tagged, piece, hzero, List.drop_zero]
          exact (List.take_prefix n (msg i)).map _
    | part i' hi' hpart hwire hother =>
        have hii' : i = i' := by
          by_contra hne
          exact hstart (hother i hnot hne) i' hpart
        subst hii'
        refine ⟨done, hnodup, tagged i ((msg i).take (s.sent i + (s.piece msg i n).length)), ?_,
          Or.inr ⟨i, hnot, ?_⟩⟩
        · rw [SharedStream.send, hwire, List.append_assoc, tagged, tagged, ← List.map_append,
            take_append_piece]
          rfl
        · exact (List.take_prefix _ (msg i)).map _

end SharedStream

end Mawmaw.Lib
