import Mathlib.Algebra.Order.Ring.Int
import Mathlib.Data.List.GetD
import Mathlib.Data.List.Perm.Lattice
import Mathlib.Data.List.Range
import Mathlib.Data.Set.Defs

/-!
# Reassembling chunked snapshots

A snapshot is sent as numbered chunks that all carry its key and its length; the receiver keeps one
pending group and the last complete one.

* `Chunk`, `Group`, `Assembler`, `Assembler.receive` : the receiver;
* `Snapshot`, `Snapshot.chunk` : the sender;
* `Holding S rs g` : the group `g` has the parts `rs` of `S`, in the order of their arrival;
  `Shown S g` : all of them;
* `receive_chunk` : the three things a chunk can do, be a duplicate, be kept, complete its snapshot;
* `foldl_receive_shows` : a snapshot all of whose chunks arrive is shown;
* `Consistent.receive` : whatever arrives, what is pending and what is shown are one snapshot each.
-/

namespace Mawmaw.Lib

variable {K I E : Type}

/-! ## The receiver -/

structure Chunk (K I E : Type) where
  key : K
  info : I
  index : Nat
  count : Nat
  items : List E
  deriving DecidableEq

structure Group (K I E : Type) where
  key : K
  info : I
  count : Nat
  received : List Bool
  items : List E
  deriving DecidableEq

structure Assembler (K I E : Type) where
  pending : Option (Group K I E) := none
  latest : Option (Group K I E) := none
  deriving DecidableEq

def Group.start (c : Chunk K I E) : Group K I E :=
  { key := c.key, info := c.info, count := c.count
    received := List.replicate c.count false, items := [] }

def Group.accept (g : Group K I E) (c : Chunk K I E) : Group K I E :=
  { g with received := g.received.set c.index true, items := g.items ++ c.items }

namespace Assembler

/-- The pending group a chunk belongs to; another snapshot's is given up. -/
def current [DecidableEq K] (a : Assembler K I E) (c : Chunk K I E) : Group K I E :=
  match a.pending with
  | some g => if g.key = c.key then g else .start c
  | none => .start c

def receive [DecidableEq K] (a : Assembler K I E) (c : Chunk K I E) : Assembler K I E :=
  let g := a.current c
  if c.index ≥ g.received.length ∨ g.received.getD c.index false = true then
    { a with pending := some g }
  else
    let g := g.accept c
    if g.received.all id then { pending := none, latest := some g }
    else { a with pending := some g }

end Assembler

/-! ## The sender -/

structure Snapshot (K I E : Type) where
  key : K
  info : I
  parts : List (List E)

namespace Snapshot

def chunk (S : Snapshot K I E) (i : Nat) : Chunk K I E :=
  { key := S.key, info := S.info, index := i, count := S.parts.length, items := S.parts.getD i [] }

end Snapshot

/-! ## Partial and complete groups -/

/-- Every part of `S` is among `rs`. -/
def Complete (S : Snapshot K I E) (rs : List Nat) : Prop := ∀ i < S.parts.length, i ∈ rs

/-- `g` has received exactly the parts `rs` of `S`, in this order. -/
structure Holding (S : Snapshot K I E) (rs : List Nat) (g : Group K I E) : Prop where
  key : g.key = S.key
  info : g.info = S.info
  nodup : rs.Nodup
  lt : ∀ i ∈ rs, i < S.parts.length
  received : g.received = (List.range S.parts.length).map fun i => decide (i ∈ rs)
  items : g.items = rs.flatMap fun i => S.parts.getD i []

/-- `g` is the snapshot `S` up to the order of its items. -/
structure Shown (S : Snapshot K I E) (g : Group K I E) : Prop where
  key : g.key = S.key
  info : g.info = S.info
  items : g.items.Perm S.parts.flatten

theorem holding_start (S : Snapshot K I E) (i : Nat) : Holding S [] (.start (S.chunk i)) :=
  ⟨rfl, rfl, List.nodup_nil, by simp, by simp [Group.start, Snapshot.chunk], rfl⟩

variable {S : Snapshot K I E} {rs : List Nat} {g : Group K I E}

theorem Holding.length_received (h : Holding S rs g) : g.received.length = S.parts.length := by
  rw [h.received, List.length_map, List.length_range]

theorem Holding.received_getD (h : Holding S rs g) {i : Nat} (hi : i < S.parts.length) :
    g.received.getD i false = decide (i ∈ rs) := by
  rw [h.received, List.getD_eq_getElem _ _ (by simpa using hi), List.getElem_map,
    List.getElem_range]

theorem Holding.accept (h : Holding S rs g) {i : Nat} (hi : i < S.parts.length) (hnew : i ∉ rs) :
    Holding S (rs ++ [i]) (g.accept (S.chunk i)) := by
  refine ⟨h.key, h.info, ?_, ?_, ?_, ?_⟩
  · exact List.nodup_append.mpr ⟨h.nodup, List.nodup_singleton i, by
      rintro a ha b hb rfl
      exact hnew (List.mem_singleton.mp hb ▸ ha)⟩
  · intro j hj
    rcases List.mem_append.mp hj with hj | hj
    · exact h.lt j hj
    · rw [List.mem_singleton.mp hj]
      exact hi
  · show g.received.set i true = _
    rw [h.received]
    apply List.ext_getElem
    · simp
    · intro j h₁ h₂
      rw [List.getElem_set]
      by_cases hij : i = j
      · simp [hij]
      · have hji : j ≠ i := fun heq => hij heq.symm
        simp [hij, hji]
  · show g.items ++ S.parts.getD i [] = _
    rw [h.items, List.flatMap_append, List.flatMap_singleton]

theorem Holding.all_iff (h : Holding S rs g) : g.received.all id = true ↔ Complete S rs := by
  rw [h.received]
  simp [Complete]

/-- A complete group shows its snapshot: the arrivals are a permutation of the indices. -/
theorem Holding.shown (h : Holding S rs g) (hall : Complete S rs) : Shown S g := by
  refine ⟨h.key, h.info, ?_⟩
  have hperm : rs.Perm (List.range S.parts.length) := by
    refine (List.perm_ext_iff_of_nodup h.nodup List.nodup_range).mpr fun i => ?_
    rw [List.mem_range]
    exact ⟨h.lt i, hall i⟩
  have hparts : ((List.range S.parts.length).map fun i => S.parts.getD i []) = S.parts := by
    apply List.ext_getElem
    · simp
    · intro i h₁ h₂
      rw [List.getElem_map, List.getElem_range, List.getD_eq_getElem _ _ h₂]
  calc g.items = rs.flatMap fun i => S.parts.getD i [] := h.items
    _ |>.Perm ((List.range S.parts.length).flatMap fun i => S.parts.getD i []) :=
        hperm.flatMap_right _
    _ = S.parts.flatten := by rw [List.flatMap_def, hparts]

/-- The receiver holds parts of at most one snapshot of the family `F`, and shows at most one. -/
structure Consistent (F : Set (Snapshot K I E)) (a : Assembler K I E) : Prop where
  pending : ∀ g, a.pending = some g → ∃ S ∈ F, ∃ rs, Holding S rs g ∧ ¬ Complete S rs
  latest : ∀ g, a.latest = some g → ∃ S ∈ F, Shown S g

theorem consistent_init (F : Set (Snapshot K I E)) : Consistent F {} :=
  ⟨nofun, nofun⟩

/-! ## One chunk -/

/-- The pending group from the point of view of `S`: it belongs to another snapshot, or to `S` and
lacks some part. -/
def Progress (S : Snapshot K I E) (rs : List Nat) (pending : Option (Group K I E)) : Prop :=
  (rs = [] ∧ ∀ g, pending = some g → g.key ≠ S.key) ∨
    ∃ g, pending = some g ∧ Holding S rs g ∧ ¬ Complete S rs

variable [DecidableEq K]

theorem Progress.current {a : Assembler K I E} (h : Progress S rs a.pending) (i : Nat) :
    Holding S rs (a.current (S.chunk i)) := by
  rcases h with ⟨rfl, hother⟩ | ⟨g, hg, hold, -⟩
  · have hstart : a.current (S.chunk i) = .start (S.chunk i) := by
      unfold Assembler.current
      cases hp : a.pending with
      | none => rfl
      | some g => exact if_neg (hother g hp)
    rw [hstart]
    exact holding_start S i
  · have hcur : a.current (S.chunk i) = g := by
      rw [Assembler.current, hg]
      exact if_pos hold.key
    rw [hcur]
    exact hold

/-- What a chunk of `S` does: nothing when it has been received, else it completes the snapshot or
joins the pending group. -/
theorem receive_chunk {a : Assembler K I E} (h : Progress S rs a.pending) {i : Nat}
    (hi : i < S.parts.length) :
    (i ∈ rs ∧ a.receive (S.chunk i) = a) ∨
    (∃ g, a.receive (S.chunk i) = { pending := none, latest := some g } ∧ Shown S g) ∨
    ((a.receive (S.chunk i)).latest = a.latest ∧
      Progress S (rs ++ [i]) (a.receive (S.chunk i)).pending) := by
  have hcur := h.current i
  have hindex : ¬ (S.chunk i).index ≥ (a.current (S.chunk i)).received.length := by
    rw [hcur.length_received]
    exact Nat.not_le.mpr hi
  have hbit : (a.current (S.chunk i)).received.getD (S.chunk i).index false = decide (i ∈ rs) :=
    hcur.received_getD hi
  by_cases hmem : i ∈ rs
  · refine Or.inl ⟨hmem, ?_⟩
    obtain ⟨rfl, -⟩ | ⟨g, hg, hold, -⟩ := h
    · cases hmem
    · have hsame : a.current (S.chunk i) = g := by
        rw [Assembler.current, hg]
        exact if_pos hold.key
      rw [Assembler.receive, if_pos (Or.inr (by rw [hbit]; exact decide_eq_true hmem)), hsame, ← hg]
  · have hacc := hcur.accept hi hmem
    have hnew : ¬ ((S.chunk i).index ≥ (a.current (S.chunk i)).received.length ∨
        (a.current (S.chunk i)).received.getD (S.chunk i).index false = true) := by
      rw [hbit]
      simp only [not_or]
      exact ⟨hindex, by simpa using hmem⟩
    rw [Assembler.receive, if_neg hnew]
    simp only
    by_cases hall : Complete S (rs ++ [i])
    · refine Or.inr (Or.inl ⟨_, if_pos (hacc.all_iff.mpr hall), hacc.shown hall⟩)
    · rw [if_neg (hacc.all_iff.not.mpr hall)]
      exact Or.inr (Or.inr ⟨rfl, Or.inr ⟨_, rfl, hacc, hall⟩⟩)

/-! ## Runs -/

/-- The chunks of `S` in `seen` have arrived: until `S` is shown they are in the pending group. -/
def Seen (S : Snapshot K I E) (seen : List Nat) (a : Assembler K I E) : Prop :=
  ∃ rs, Progress S rs a.pending ∧
    ((∃ g, a.latest = some g ∧ Shown S g) ∨ ∀ i ∈ seen, i ∈ rs)

theorem Seen.receive {seen : List Nat} {a : Assembler K I E} (h : Seen S seen a) {i : Nat}
    (hi : i < S.parts.length) : Seen S (seen ++ [i]) (a.receive (S.chunk i)) := by
  obtain ⟨rs, hprog, hseen⟩ := h
  rcases receive_chunk hprog hi with ⟨hmem, heq⟩ | ⟨g, heq, hshown⟩ | ⟨hlatest, hprog'⟩
  · rw [heq]
    refine ⟨rs, hprog, hseen.imp_right fun hall j hj => ?_⟩
    rcases List.mem_append.mp hj with hj | hj
    · exact hall j hj
    · rw [List.mem_singleton.mp hj]
      exact hmem
  · rw [heq]
    exact ⟨[], Or.inl ⟨rfl, nofun⟩, Or.inl ⟨g, rfl, hshown⟩⟩
  · refine ⟨rs ++ [i], hprog', ?_⟩
    rw [hlatest]
    exact hseen.imp_right fun hall j hj =>
      List.mem_append.mpr ((List.mem_append.mp hj).imp_left (hall j))

theorem Seen.foldl (is : List Nat) (hlt : ∀ i ∈ is, i < S.parts.length) {seen : List Nat}
    {a : Assembler K I E} (h : Seen S seen a) :
    Seen S (seen ++ is) (is.foldl (fun a i => a.receive (S.chunk i)) a) := by
  induction is generalizing seen a with
  | nil => rwa [List.append_nil]
  | cons i is ih =>
      have := ih (fun j hj => hlt j (List.mem_cons_of_mem i hj))
        (h.receive (hlt i List.mem_cons_self))
      rwa [List.append_assoc] at this

/-- A snapshot is shown once all its chunks have arrived, in any order and with any repetition. -/
theorem foldl_receive_shows (a : Assembler K I E) (hS : S.parts ≠ [])
    (hpending : ∀ g, a.pending = some g → g.key ≠ S.key) (is : List Nat)
    (hlt : ∀ i ∈ is, i < S.parts.length) (hcover : Complete S is) :
    ∃ g, (is.foldl (fun a i => a.receive (S.chunk i)) a).latest = some g ∧ Shown S g := by
  have hstart : Seen S [] a :=
    ⟨[], Or.inl ⟨rfl, hpending⟩, Or.inr nofun⟩
  obtain ⟨rs, hprog, hshown | hall⟩ := hstart.foldl is hlt
  · exact hshown
  · -- all chunks would be in a pending group that lacks one
    exfalso
    have hcomplete : Complete S rs := fun i hi => hall i (hcover i hi)
    rcases hprog with ⟨rfl, -⟩ | ⟨_, _, -, hnot⟩
    · have := hcomplete 0 (List.length_pos_of_ne_nil hS)
      cases this
    · exact hnot hcomplete

/-- With a key of its own for every snapshot, the pending group is in progress for each of them. -/
theorem Consistent.progress {F : Set (Snapshot K I E)} {a : Assembler K I E}
    (h : Consistent F a) (hkey : ∀ S ∈ F, ∀ S' ∈ F, S.key = S'.key → S = S')
    {S : Snapshot K I E} (hS : S ∈ F) : ∃ rs, Progress S rs a.pending := by
  cases hp : a.pending with
  | none => exact ⟨[], Or.inl ⟨rfl, nofun⟩⟩
  | some g =>
      obtain ⟨S', hS', rs, hold, hnot⟩ := h.pending g hp
      by_cases heq : g.key = S.key
      · obtain rfl : S' = S := hkey S' hS' S hS (hold.key.symm.trans heq)
        exact ⟨rs, Or.inr ⟨g, rfl, hold, hnot⟩⟩
      · refine ⟨[], Or.inl ⟨rfl, fun g' hg' => ?_⟩⟩
        rw [← Option.some.inj hg']
        exact heq

theorem Consistent.receive {F : Set (Snapshot K I E)} {a : Assembler K I E}
    (h : Consistent F a) (hkey : ∀ S ∈ F, ∀ S' ∈ F, S.key = S'.key → S = S')
    {S : Snapshot K I E} (hS : S ∈ F) {i : Nat} (hi : i < S.parts.length) :
    Consistent F (a.receive (S.chunk i)) := by
  obtain ⟨rs, hprog⟩ := h.progress hkey hS
  rcases receive_chunk hprog hi with ⟨-, heq⟩ | ⟨g, heq, hshown⟩ | ⟨hlatest, hprog'⟩
  · rw [heq]
    exact h
  · rw [heq]
    refine ⟨nofun, fun g' hg' => ⟨S, hS, ?_⟩⟩
    rw [← Option.some.inj hg']
    exact hshown
  · refine ⟨fun g hg => ?_, fun g hg => h.latest g (hlatest ▸ hg)⟩
    rcases hprog' with ⟨hnil, -⟩ | ⟨g', hg', hold, hnot⟩
    · simp at hnil
    · rw [hg] at hg'
      rw [Option.some.inj hg']
      exact ⟨S, hS, rs ++ [i], hold, hnot⟩

end Mawmaw.Lib
