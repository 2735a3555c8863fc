import Mawmaw.Core.WindowViews

/-!
# Copying a snapshot while events are pushed

`make_snapshot_input` step by step: the bounds of all windows in one step, then one step for each
event copied, with any registry operations in between.

* `SnapshotCopy`, `step` : the registry, the copies still to make, and the windows so far;
* `run_copies` : the copies without anything in between are `makeSnapshotInput`;
* `Unlapped` : the writer has not come round to the event about to be copied;
* `Copying` : the state of a call none of whose copies was lapped so far.
-/

namespace Mawmaw.Core
open Mawmaw.Lib

variable {P : Nat}

namespace RingBuffer.Holds
variable {T : Type} {r : RingBuffer T} {hist : List T}

theorem read_of_unlapped (h : r.Holds hist) {p : Nat} (hp : p < hist.length)
    (hlt : UInt64.ofNat p < r.head) (hlap : hist.length ≤ p + r.capacity.size) :
    r.read (UInt64.ofNat p) = some hist[p] := by
  rw [r.read_of_lt (UInt64.lt_iff_toNat_lt.mp hlt), h.slots p hp hlap]

/-- Items that all differ are read back only while they are in the ring. -/
theorem unlapped_of_read (h : r.Holds hist) (hnodup : hist.Nodup) {p : Nat}
    (hp : p < hist.length) (hread : r.read (UInt64.ofNat p) = some hist[p]) :
    UInt64.ofNat p < r.head ∧ hist.length ≤ p + r.capacity.size := by
  rcases Nat.lt_or_ge (UInt64.ofNat p).toNat r.writeSeq.toNat with hlt | hge
  · refine ⟨UInt64.lt_iff_toNat_lt.mpr hlt, ?_⟩
    rw [r.read_of_lt hlt, h.slot hp, Option.some.injEq] at hread
    have hsame : latest r.capacity.size hist.length p = p := hnodup.getElem_inj_iff.mp hread
    have := le_latest_add r.capacity.size_pos hp
    omega
  · rw [r.read_of_le hge] at hread
    cases hread

end RingBuffer.Holds

namespace RegistryRun

theorem step_grows (s : RegistryRun P) (op : RegistryOp P) (sid : Str) :
    ∃ more, (s.step op).pushedTo sid = s.pushedTo sid ++ more := by
  cases op with
  | ensureStream id capacity => exact ⟨[], (List.append_nil _).symm⟩
  | push ev =>
      cases hev : s.registry.rings.lookup ev.stream with
      | none =>
          refine ⟨[], ?_⟩
          rw [List.append_nil]
          simp only [step, push, hev, pushedTo]
      | some sr =>
          show ∃ more, (s.push ev).pushedTo sid = _
          rw [pushedTo_push hev]
          split
          · exact ⟨_, rfl⟩
          · exact ⟨[], (List.append_nil _).symm⟩

/-- A ring stays, with its capacity. -/
theorem step_ring {s : RegistryRun P} {sid : Str} {sr : StreamRing P}
    (h : s.registry.rings.lookup sid = some sr) (op : RegistryOp P) :
    ∃ sr', (s.step op).registry.rings.lookup sid = some sr' ∧
      sr'.ring.capacity = sr.ring.capacity := by
  cases op with
  | ensureStream id capacity =>
      refine ⟨sr, ?_, rfl⟩
      simp only [step, WindowRegistry.ensureStream]
      split
      · exact h
      · rename_i hid
        have hne : sid ≠ id := by
          intro heq
          rw [heq, hid] at h
          cases h
        exact (AList.lookup_insert_ne hne).trans h
  | push ev =>
      cases hev : s.registry.rings.lookup ev.stream with
      | none =>
          refine ⟨sr, ?_, rfl⟩
          simp only [step, push, hev, WindowRegistry.push_of_no_ring hev]
          exact h
      | some sr' =>
          have hrings : (s.step (.push ev)).registry.rings
              = s.registry.rings.insert ev.stream { sr' with ring := (sr'.ring.write ev).2 } := by
            simp [step, push, WindowRegistry.push, hev]
          by_cases hs : sid = ev.stream
          · rw [← hs, h, Option.some.injEq] at hev
            subst hev
            refine ⟨{ sr with ring := (sr.ring.write ev).2 }, ?_, rfl⟩
            rw [hrings, hs]
            exact AList.lookup_insert _
          · exact ⟨sr, by rw [hrings, AList.lookup_insert_ne hs]; exact h, rfl⟩

theorem Names.eq {s : RegistryRun P} {sid : Str} {v : RingView} {events : List (Event P)}
    (h : s.Names sid v events) (hle : v.beginSeq ≤ v.endSeq) : events
      = ((s.pushedTo sid).map Prod.snd).drop ((s.pushedTo sid).length - v.size.toNat) := by
  obtain ⟨older, window, hsplit, hseqs, hevents⟩ := h
  have hlen : window.length = v.size.toNat := by
    have := congrArg List.length hseqs
    rw [RingView.toNat_size hle]
    simpa [RingView.seqs] using this
  rw [hsplit, List.length_append, List.map_append, ← hlen, Nat.add_sub_cancel,
    List.drop_left' (List.length_map _), hevents]

end RegistryRun

/-! ## The call, step by step -/

/-- `make_snapshot_input` between its bounds and its return. -/
structure SnapshotCopy (P : Nat) where
  history : RegistryRun P
  pending : List (Str × UInt64)
  windows : UMap Str (List (Event P))

inductive CopyTurn (P : Nat)
  | other (op : RegistryOp P)
  | copy

namespace SnapshotCopy

/-- The bounds of the subscribed streams that have a ring. -/
def infos (r : RegistryRun P) (trigger : Event P) (subs : UMap Str WindowSpec) :
    UMap Str RingView :=
  subs.collect fun sid spec =>
    (r.registry.rings.lookup sid).map fun sr => windowBounds sr.ring spec trigger.timestampNs

theorem lookup_infos {r : RegistryRun P} {trigger : Event P} {subs : UMap Str WindowSpec}
    {sid : Str} {v : RingView} (hv : (infos r trigger subs).lookup sid = some v) :
    ∃ spec sr, subs.lookup sid = some spec ∧ r.registry.rings.lookup sid = some sr
      ∧ v = windowBounds sr.ring spec trigger.timestampNs := by
  rw [infos, UMap.lookup_collect] at hv
  obtain ⟨spec, hsub, hbounds⟩ := Option.bind_eq_some_iff.mp hv
  obtain ⟨sr, hsr, hview⟩ := Option.map_eq_some_iff.mp hbounds
  exact ⟨spec, sr, hsub, hsr, hview.symm⟩

/-- The step under the lock. The least sequence number is computed there too, but nothing reads
it: no reader position is stored before the copy. -/
def start (r : RegistryRun P) (trigger : Event P) (subs : UMap Str WindowSpec) :
    SnapshotCopy P where
  history := r
  pending := (infos r trigger subs).toPairs.flatMap fun e => e.2.seqs.map fun seq => (e.1, seq)
  windows := (infos r trigger subs).collect fun _ _ => some []

/-- One round of the copy loop; a sequence number that cannot be read is left out. -/
def copy (s : SnapshotCopy P) : SnapshotCopy P :=
  match s.pending with
  | [] => s
  | (sid, seq) :: rest =>
    match (s.history.registry.rings.lookup sid).bind fun sr => sr.ring.read seq with
    | none => { s with pending := rest }
    | some e =>
      { s with
        pending := rest
        windows := s.windows.insert sid (UMap.getD s.windows sid [] ++ [e]) }

def step (s : SnapshotCopy P) : CopyTurn P → SnapshotCopy P
  | .other op => { s with history := s.history.step op }
  | .copy => s.copy

def run (s : SnapshotCopy P) (turns : List (CopyTurn P)) : SnapshotCopy P := turns.foldl step s

/-- The writer has not come round to the event about to be copied: of the events from it on, there
are at most `capacity`. `r` is the history when the bounds `v` were taken. -/
def Unlapped (r : RegistryRun P) (sid : Str) (v : RingView) (s : SnapshotCopy P) :
    CopyTurn P → Prop
  | .other _ => True
  | .copy => ∀ seq rest sr, s.pending = (sid, seq) :: rest →
      s.history.registry.rings.lookup sid = some sr →
      seq < sr.ring.head ∧ (v.endSeq - seq).toNat + (s.history.pushedTo sid).length
        ≤ (r.pushedTo sid).length + sr.ring.capacity.size

/-! ## One copy -/

theorem lookup_windows_copy (s : SnapshotCopy P) {sid sid' : Str} {seq : UInt64}
    {rest : List (Str × UInt64)} {w : List (Event P)} (hpending : s.pending = (sid', seq) :: rest)
    (hw : s.windows.lookup sid = some w) :
    s.copy.windows.lookup sid = some (w ++ if sid' = sid then
      ((s.history.registry.rings.lookup sid).bind fun sr => sr.ring.read seq).toList else []) := by
  simp only [copy, hpending]
  by_cases hs : sid' = sid
  · subst hs
    rw [if_pos rfl]
    split
    · rename_i hread
      rw [hread, Option.toList_none, List.append_nil]
      exact hw
    · rename_i e hread
      rw [hread, Option.toList_some]
      simp [UMap.getD, hw]
  · rw [if_neg hs, List.append_nil]
    split
    · exact hw
    · exact (AList.lookup_insert_ne (Ne.symm hs)).trans hw

theorem pending_copy (s : SnapshotCopy P) {sid : Str} {seq : UInt64}
    {rest : List (Str × UInt64)} (hpending : s.pending = (sid, seq) :: rest) :
    s.copy.pending = rest ∧ s.copy.history = s.history := by
  simp only [copy, hpending]
  split <;> exact ⟨rfl, rfl⟩

theorem copy_of_done {s : SnapshotCopy P} (h : s.pending = []) : s.copy = s := by
  simp only [copy, h]

theorem lookup_windows_start {r : RegistryRun P} {trigger : Event P} {subs : UMap Str WindowSpec}
    {sid : Str} {v : RingView} (hv : (infos r trigger subs).lookup sid = some v) :
    (start r trigger subs).windows.lookup sid = some [] := by
  show ((infos r trigger subs).collect _).lookup sid = _
  rw [UMap.lookup_collect, hv]
  rfl

theorem pending_start {r : RegistryRun P} {trigger : Event P} {subs : UMap Str WindowSpec}
    {sid : Str} {v : RingView} (hv : (infos r trigger subs).lookup sid = some v) :
    (start r trigger subs).pending.filter (fun w => w.1 = sid)
      = v.seqs.map fun seq => (sid, seq) := by
  have hone : ∀ e : Str × RingView,
      (e.2.seqs.map fun seq => (e.1, seq)).filter (fun w => w.1 = sid)
        = if e.1 = sid then e.2.seqs.map fun seq => (e.1, seq) else [] := by
    intro e
    rw [List.filter_map]
    split
    · rename_i he
      simp [Function.comp_def, he]
    · rename_i he
      simp [Function.comp_def, he]
  show ((infos r trigger subs).toPairs.flatMap _).filter _ = _
  rw [List.filter_flatMap]
  simp only [hone]
  rw [UMap.flatMap_ite_nil, UMap.filter_toPairs hv]
  simp

/-- **The copies, uninterrupted.** They make the input `makeSnapshotInput` makes. -/
theorem run_copies (r : RegistryRun P) (trigger : Event P) (subs : UMap Str WindowSpec)
    (idx : Nat) (sid : Str) {v : RingView} (hv : (infos r trigger subs).lookup sid = some v) :
    ((start r trigger subs).run
        (List.replicate (start r trigger subs).pending.length .copy)).windows.lookup sid
      = (r.registry.makeSnapshotInput trigger subs idx).windows.lookup sid := by
  have hcopies : ∀ (n : Nat) (s : SnapshotCopy P) (w : List (Event P)), s.pending.length = n →
      s.history = r → s.windows.lookup sid = some w →
      (s.run (List.replicate n .copy)).windows.lookup sid = some (w ++
        (s.pending.filter fun x => x.1 = sid).filterMap fun x =>
          (r.registry.rings.lookup sid).bind fun sr => sr.ring.read x.2) := by
    intro n
    induction n with
    | zero =>
        intro s w hlen _ hw
        rw [List.eq_nil_of_length_eq_zero hlen]
        simpa [run] using hw
    | succ n ih =>
        intro s w hlen hr hw
        obtain ⟨⟨sid', seq⟩, rest, hpending⟩ := List.exists_cons_of_length_eq_add_one hlen
        obtain ⟨hrest, hhist⟩ := s.pending_copy hpending
        have hw' := s.lookup_windows_copy hpending hw
        have hlen' : s.copy.pending.length = n := by
          rw [hpending, List.length_cons] at hlen
          rw [hrest]
          omega
        rw [List.replicate_succ, run, List.foldl_cons]
        have := ih s.copy _ hlen' (hhist.trans hr) hw'
        rw [run] at this
        rw [step, this, hrest, hpending, hr]
        by_cases hs : sid' = sid
        · rw [if_pos hs, List.filter_cons_of_pos (by simpa using hs), List.filterMap_cons]
          cases (r.registry.rings.lookup sid).bind fun sr => sr.ring.read seq <;> simp
        · rw [if_neg hs, List.filter_cons_of_neg (by simpa using hs), List.append_nil]
  rw [hcopies _ _ [] rfl rfl (lookup_windows_start hv), pending_start hv,
    r.registry.lookup_makeSnapshotInput, List.nil_append, List.filterMap_map]
  obtain ⟨spec, sr, hsub, hsr, rfl⟩ := lookup_infos hv
  rw [hsub, hsr]
  rfl

/-! ## Copies that are not lapped -/

/-- The events the view `v` of stream `sid` stands for. -/
def expected (r : RegistryRun P) (sid : Str) (v : RingView) : List (Event P) :=
  ((r.pushedTo sid).map Prod.snd).drop ((r.pushedTo sid).length - v.size.toNat)

/-- The view `v` names the last events pushed to `sid`. -/
structure Covers (r : RegistryRun P) (sid : Str) (v : RingView) : Prop where
  begin_le : v.beginSeq ≤ v.endSeq
  size_le : v.size.toNat ≤ (r.pushedTo sid).length
  seqs : v.seqs = ((List.range (r.pushedTo sid).length).map UInt64.ofNat).drop
    ((r.pushedTo sid).length - v.size.toNat)

variable {r : RegistryRun P} {sid : Str} {v : RingView} {s : SnapshotCopy P} {i : Nat}

theorem Covers.length_expected (h : Covers r sid v) :
    (expected r sid v).length = v.size.toNat := by
  have := h.size_le
  rw [expected, List.length_drop, List.length_map]
  omega

theorem Covers.length_seqs (h : Covers r sid v) : v.seqs.length = v.size.toNat := by
  rw [RingView.toNat_size h.begin_le]
  simp [RingView.seqs]

/-- The next sequence number to copy, its position in the log, and how far the end is. -/
theorem Covers.next (h : Covers r sid v) {seq : UInt64} {rest : List UInt64}
    (hdrop : v.seqs.drop i = seq :: rest) : i < v.size.toNat ∧
      seq = UInt64.ofNat ((r.pushedTo sid).length - v.size.toNat + i) ∧
      (v.endSeq - seq).toNat = v.size.toNat - i ∧ rest = v.seqs.drop (i + 1) := by
  have hi : i < v.seqs.length := by
    by_contra hge
    rw [List.drop_eq_nil_of_le (Nat.le_of_not_lt hge)] at hdrop
    cases hdrop
  rw [List.drop_eq_getElem_cons hi, List.cons.injEq] at hdrop
  obtain ⟨rfl, rfl⟩ := hdrop
  have hsize := RingView.toNat_size h.begin_le
  have hlt : i < v.size.toNat := by
    rw [← h.length_seqs]
    exact hi
  refine ⟨hlt, ?_, ?_, rfl⟩
  · simp [h.seqs]
  · have hseq : v.seqs[i] = UInt64.ofNat (v.beginSeq.toNat + i) := by simp [RingView.seqs]
    have hnat := RingView.toNat_seq (v := v) (i := i) (by omega)
    rw [hseq, UInt64.toNat_sub_of_le _ _ (UInt64.le_iff_toNat_le.mpr (by omega)), hnat]
    omega

/-- The first `i` events of the view are copied, and rightly so. -/
structure Copying (r : RegistryRun P) (sid : Str) (v : RingView) (c : Capacity)
    (s : SnapshotCopy P) (i : Nat) : Prop where
  inv : s.history.Inv
  ring : ∃ sr, s.history.registry.rings.lookup sid = some sr ∧ sr.ring.capacity = c
  grows : ∃ more, s.history.pushedTo sid = r.pushedTo sid ++ more
  pending : s.pending.filter (fun w => w.1 = sid) = (v.seqs.drop i).map fun seq => (sid, seq)
  windows : s.windows.lookup sid = some ((expected r sid v).take i)

variable {c : Capacity}

theorem Copying.other (h : Copying r sid v c s i) (op : RegistryOp P) :
    Copying r sid v c (s.step (.other op)) i := by
  obtain ⟨sr, hsr, hcap⟩ := h.ring
  obtain ⟨sr', hsr', hcap'⟩ := RegistryRun.step_ring hsr op
  obtain ⟨more, hmore⟩ := h.grows
  obtain ⟨more', hmore'⟩ := s.history.step_grows op sid
  exact ⟨RegistryRun.inv_step _ op h.inv, ⟨sr', hsr', hcap'.trans hcap⟩,
    ⟨more ++ more', by rw [← List.append_assoc, ← hmore]; exact hmore'⟩, h.pending, h.windows⟩

/-- Another stream's turn in the loop. -/
theorem Copying.elsewhere (h : Copying r sid v c s i) {sid' : Str} {seq : UInt64}
    {rest : List (Str × UInt64)} (hpending : s.pending = (sid', seq) :: rest) (hs : sid' ≠ sid) :
    Copying r sid v c s.copy i := by
  obtain ⟨hrest, hhist⟩ := s.pending_copy hpending
  have hfilter := h.pending
  have hwindows := s.lookup_windows_copy hpending h.windows
  rw [hpending, List.filter_cons_of_neg (by simpa using hs)] at hfilter
  rw [if_neg hs, List.append_nil] at hwindows
  exact ⟨hhist ▸ h.inv, hhist ▸ h.ring, hhist ▸ h.grows, hrest ▸ hfilter, hwindows⟩

/-- The position in the log of the event about to be copied, and the event. -/
theorem Copying.next (hc : Covers r sid v) (h : Copying r sid v c s i) {seq : UInt64}
    {rest : List (Str × UInt64)} (hpending : s.pending = (sid, seq) :: rest) :
    i < v.size.toNat ∧ (v.endSeq - seq).toNat = v.size.toNat - i ∧
      (rest.filter fun w => w.1 = sid) = (v.seqs.drop (i + 1)).map (fun seq => (sid, seq)) ∧
      ∃ p, seq = UInt64.ofNat p ∧ p = (r.pushedTo sid).length - v.size.toNat + i ∧
        ((s.history.pushedTo sid).map Prod.snd)[p]? = (expected r sid v)[i]? := by
  have hfilter := h.pending
  rw [hpending, List.filter_cons_of_pos (by simp)] at hfilter
  obtain ⟨seq', tail, hdrop, hseq, htail⟩ := List.map_eq_cons_iff.mp hfilter.symm
  obtain rfl : seq' = seq := by simpa using hseq
  obtain ⟨hlt, hpos, hend, hnext⟩ := hc.next hdrop
  refine ⟨hlt, hend, by rw [← htail, hnext], _, hpos, rfl, ?_⟩
  obtain ⟨more, hmore⟩ := h.grows
  have hsize := hc.size_le
  rw [hmore, List.map_append, List.getElem?_append_left (by rw [List.length_map]; omega),
    expected, List.getElem?_drop]

theorem Copying.copy (hc : Covers r sid v) (h : Copying r sid v c s i)
    (hun : Unlapped r sid v s .copy) : ∃ i', Copying r sid v c s.copy i' := by
  cases hpending : s.pending with
  | nil =>
      rw [copy_of_done hpending]
      exact ⟨i, h⟩
  | cons w rest =>
      obtain ⟨sid', seq⟩ := w
      by_cases hs : sid' = sid
      · subst hs
        obtain ⟨sr, hsr, -⟩ := h.ring
        obtain ⟨hlt, hend, hfilter, p, hp, hpos, hget⟩ := h.next hc hpending
        obtain ⟨hread, hlap⟩ := hun seq rest sr hpending hsr
        rw [hend] at hlap
        have hsize := hc.size_le
        have hle : (expected r sid' v).length = v.size.toNat := hc.length_expected
        obtain ⟨hpn, hitem⟩ : ∃ hpn : p < ((s.history.pushedTo sid').map Prod.snd).length,
            ((s.history.pushedTo sid').map Prod.snd)[p] = (expected r sid' v)[i] := by
          rw [List.getElem?_eq_getElem (l := expected r sid' v) (by omega)] at hget
          exact List.getElem?_eq_some_iff.mp hget
        have hcopied : sr.ring.read seq = some (expected r sid' v)[i] := by
          rw [← hitem, hp]
          refine (h.inv.holds sid' sr hsr).read_of_unlapped hpn (hp ▸ hread) ?_
          rw [List.length_map]
          omega
        obtain ⟨hrest, hhist⟩ := s.pending_copy hpending
        have hwindows := s.lookup_windows_copy hpending h.windows
        rw [if_pos rfl, hsr, Option.bind_some, hcopied, Option.toList_some,
          List.take_append_getElem] at hwindows
        exact ⟨i + 1, hhist ▸ h.inv, hhist ▸ h.ring, hhist ▸ h.grows, hrest ▸ hfilter, hwindows⟩
      · exact ⟨i, h.elsewhere hpending hs⟩

theorem Copying.turn (hc : Covers r sid v) (s : SnapshotCopy P) (t : CopyTurn P)
    (h : ∃ i, Copying r sid v c s i) (hun : Unlapped r sid v s t) :
    ∃ i, Copying r sid v c (s.step t) i := by
  obtain ⟨i, h⟩ := h
  cases t with
  | other op => exact ⟨i, h.other op⟩
  | copy => exact h.copy hc hun

/-- The window only grows, by at most one event for each copy that is left. -/
theorem run_windows (turns : List (CopyTurn P)) :
    ∀ (s : SnapshotCopy P) (w : List (Event P)), s.windows.lookup sid = some w →
      ∃ added, (s.run turns).windows.lookup sid = some (w ++ added) ∧
        added.length ≤ (s.pending.filter fun x => x.1 = sid).length := by
  induction turns with
  | nil =>
      intro s w hw
      exact ⟨[], by rw [List.append_nil]; exact hw, Nat.zero_le _⟩
  | cons t ts ih =>
      intro s w hw
      cases t with
      | other op => exact ih (s.step (.other op)) w hw
      | copy =>
          cases hpending : s.pending with
          | nil =>
              obtain ⟨added, hadded, hlen⟩ := ih s w hw
              refine ⟨added, ?_, by rw [← hpending]; exact hlen⟩
              show ((s.copy).run ts).windows.lookup sid = _
              rw [copy_of_done hpending]
              exact hadded
          | cons x rest =>
              obtain ⟨sid', seq⟩ := x
              obtain ⟨added, hadded, hlen⟩ :=
                ih s.copy _ (s.lookup_windows_copy hpending hw)
              rw [(s.pending_copy hpending).1] at hlen
              refine ⟨_, hadded.trans (by rw [List.append_assoc]), ?_⟩
              by_cases hs : sid' = sid
              · rw [if_pos hs, List.filter_cons_of_pos (by simpa using hs), List.length_append,
                  List.length_cons]
                have : ((s.history.registry.rings.lookup sid).bind
                    fun sr => sr.ring.read seq).toList.length ≤ 1 := Option.length_toList_le
                omega
              · rw [if_neg hs, List.filter_cons_of_neg (by simpa using hs), List.nil_append]
                exact hlen

theorem run_grows (sid : Str) (turns : List (CopyTurn P)) : ∀ s : SnapshotCopy P, ∃ more,
    (s.run turns).history.pushedTo sid = s.history.pushedTo sid ++ more := by
  induction turns with
  | nil => exact fun s => ⟨[], (List.append_nil _).symm⟩
  | cons t ts ih =>
      intro s
      obtain ⟨more, hmore⟩ := ih (s.step t)
      cases t with
      | other op =>
          obtain ⟨more', hmore'⟩ := s.history.step_grows op sid
          refine ⟨more' ++ more, ?_⟩
          rw [← List.append_assoc, ← hmore']
          exact hmore
      | copy =>
          have hhist : s.copy.history = s.history := by
            unfold copy
            split
            · rfl
            · split <;> rfl
          refine ⟨more, ?_⟩
          rw [← hhist]
          exact hmore

/-- With distinct events, the right window is copied only when no copy of it was lapped. -/
theorem Copying.along_unlapped (hc : Covers r sid v) (turns : List (CopyTurn P)) :
    ∀ {s : SnapshotCopy P} {i : Nat}, Copying r sid v c s i →
      (((s.run turns).history.pushedTo sid).map Prod.snd).Nodup →
      (s.run turns).windows.lookup sid = some (expected r sid v) →
      Along step (Unlapped r sid v) s turns := by
  induction turns with
  | nil =>
      intro _ _ _ _ _
      exact trivial
  | cons t ts ih =>
      intro s i h hnodup hfinal
      cases t with
      | other op => exact ⟨trivial, ih (h.other op) hnodup hfinal⟩
      | copy =>
          have hun : Unlapped r sid v s .copy := by
            intro seq rest sr hpending hsr
            obtain ⟨hlt, hend, hfilter, p, hp, hpos, hget⟩ := h.next hc hpending
            have hlen := hc.length_expected
            have hsize := hc.size_le
            -- the copy was read, or the window ends up too short
            obtain ⟨added, hadded, hroom⟩ :=
              run_windows ts s.copy _ (s.lookup_windows_copy hpending h.windows)
            have hfinal' : (s.copy.run ts).windows.lookup sid = some (expected r sid v) := hfinal
            rw [hadded, if_pos rfl, hsr, Option.bind_some, Option.some.injEq] at hfinal'
            rw [(s.pending_copy hpending).1, hfilter, List.length_map, List.length_drop,
              hc.length_seqs] at hroom
            have hsum := congrArg List.length hfinal'
            rw [List.length_append, List.length_append, List.length_take, hlen] at hsum
            cases hread : sr.ring.read seq with
            | none =>
                exfalso
                rw [hread, Option.toList_none, List.length_nil] at hsum
                omega
            | some x =>
                -- the event read is the one expected
                have hx : (expected r sid v)[i]? = some x := by
                  rw [← hfinal', hread, Option.toList_some, List.append_assoc,
                    List.getElem?_append_right (by rw [List.length_take]; omega),
                    List.length_take, hlen, Nat.min_eq_left (by omega), Nat.sub_self]
                  rfl
                rw [hx] at hget
                obtain ⟨hpn, hitem⟩ := List.getElem?_eq_some_iff.mp hget
                obtain ⟨more, hmore⟩ := run_grows sid ts s.copy
                have hnodup' : ((s.history.pushedTo sid).map Prod.snd).Nodup := by
                  have hsub : (s.run (.copy :: ts)).history.pushedTo sid
                      = s.history.pushedTo sid ++ more := by
                    rw [← (s.pending_copy hpending).2]
                    exact hmore
                  rw [hsub, List.map_append] at hnodup
                  exact (List.nodup_append.mp hnodup).1
                have hholds := h.inv.holds sid sr hsr
                obtain ⟨hhead, hlap⟩ := hholds.unlapped_of_read hnodup' hpn
                  (by rw [← hp, hread, hitem])
                rw [List.length_map] at hlap
                refine ⟨hp ▸ hhead, ?_⟩
                rw [hend]
                omega
          obtain ⟨i', h'⟩ := h.copy hc hun
          exact ⟨hun, ih h' hnodup hfinal⟩

theorem Copying.done (hc : Covers r sid v) (h : Copying r sid v c s i) (hdone : s.pending = []) :
    s.windows.lookup sid = some (expected r sid v) := by
  have hpending := h.pending
  rw [hdone, List.filter_nil, eq_comm, List.map_eq_nil_iff, List.drop_eq_nil_iff,
    hc.length_seqs] at hpending
  rw [h.windows, List.take_of_length_le (by rw [hc.length_expected]; exact hpending)]

/-- **Snapshots and concurrent writers.** The window delivered for a stream, if it spans at most one
lap, is the events pushed with its sequence numbers when no copy was lapped, and for distinct events
only then. -/
theorem delivered_exact_iff (scriptPositions : List UInt64) (telemetry : Bool)
    (ops : List (RegistryOp P)) (trigger : Event P) (subs : UMap Str WindowSpec)
    (turns : List (CopyTurn P)) (sid : Str) (v : RingView) (sr : StreamRing P)
    (hv : (infos ((RegistryRun.fresh scriptPositions telemetry).run ops) trigger subs).lookup sid
      = some v)
    (hsr : ((RegistryRun.fresh scriptPositions telemetry).run ops).registry.rings.lookup sid
      = some sr)
    (hlap : v.size.toNat ≤ sr.ring.capacity.size)
    (hdone : ((start ((RegistryRun.fresh scriptPositions telemetry).run ops) trigger subs).run
      turns).pending = []) :
    let r := (RegistryRun.fresh scriptPositions telemetry).run ops
    let s := (start r trigger subs).run turns
    ∃ events, s.windows.lookup sid = some events ∧
      (Along step (Unlapped r sid v) (start r trigger subs) turns → r.Names sid v events) ∧
      (((s.history.pushedTo sid).map Prod.snd).Nodup → r.Names sid v events →
        Along step (Unlapped r sid v) (start r trigger subs) turns) := by
  intro r s
  have hinv : r.Inv := RegistryRun.inv_run _ ops (RegistryRun.inv_fresh scriptPositions telemetry)
  obtain ⟨spec, hle, hend⟩ : ∃ spec, v.beginSeq ≤ v.endSeq ∧
      v = windowBounds sr.ring spec trigger.timestampNs := by
    obtain ⟨spec, sr', -, hsr', rfl⟩ := lookup_infos hv
    obtain rfl : sr = sr' := Option.some.inj (hsr.symm.trans hsr')
    exact ⟨spec, windowBounds_begin_le sr.ring spec trigger.timestampNs, rfl⟩
  have hhead : v.endSeq = sr.ring.head := by rw [hend]; rfl
  obtain ⟨hsize, hevents, hseqs⟩ :=
    RingView.events_eq_drop (hinv.holds sid sr hsr) hle hhead hlap
  rw [List.length_map] at hsize hevents hseqs
  have hc : Covers r sid v := ⟨hle, hsize, hseqs⟩
  have hnames : r.Names sid v (expected r sid v) := by
    have := hinv.names hsr hle hhead hlap
    rwa [hevents] at this
  have hstart : Copying r sid v sr.ring.capacity (start r trigger subs) 0 :=
    ⟨hinv, ⟨sr, hsr, rfl⟩, ⟨[], (List.append_nil _).symm⟩, pending_start hv,
      lookup_windows_start hv⟩
  obtain ⟨events, hfinal, -⟩ := run_windows turns _ _ (lookup_windows_start hv)
  rw [List.nil_append] at hfinal
  refine ⟨events, hfinal, ?_, ?_⟩
  · intro hun
    obtain ⟨i, h⟩ := Along.keeps (Copying.turn hc) ⟨0, hstart⟩ hun
    obtain rfl : events = expected r sid v :=
      Option.some.inj (hfinal.symm.trans (h.done hc hdone))
    exact hnames
  · intro hnodup hn
    obtain rfl : events = expected r sid v := RegistryRun.Names.eq hn hle
    exact hstart.along_unlapped hc turns hnodup hfinal

def numbered (n : UInt64) : Event 76 := { sequence := n : Event 76 }.setStream (lit "s")

/-- A stream with a ring of four slots and three events in it. -/
def pushedThrice : List (RegistryOp 76) :=
  [.ensureStream (lit "s") .four, .push (numbered 1), .push (numbered 2),
    .push (numbered 3)]

def threeRing : StreamRing 76 :=
  ⟨lit "s", (RingBuffer.new .four).writeAll [numbered 1, numbered 2, numbered 3]⟩

def lastEvents (n : UInt64) : UMap Str WindowSpec :=
  (∅ : UMap Str WindowSpec).insert (lit "s") { count := n }

/-- A push between the first copy and the other two, into the slot left. -/
theorem delivered_exact_iff_between :
    let r := (RegistryRun.fresh [0] false).run pushedThrice
    let turns := [.copy, .other (.push (numbered 4)), .copy, .copy]
    let s := (start r {} (lastEvents 3)).run turns
    s.windows.lookup (lit "s") = some [numbered 1, numbered 2, numbered 3] ∧
      r.Names (lit "s") ⟨0, 3⟩ [numbered 1, numbered 2, numbered 3] ∧
      Along step (Unlapped r (lit "s") ⟨0, 3⟩) (start r {} (lastEvents 3)) turns := by
  intro r turns s
  obtain ⟨events, hevents, -, hconverse⟩ := delivered_exact_iff [0] false pushedThrice {}
    (lastEvents 3) turns (lit "s") ⟨0, 3⟩ threeRing (by decide +kernel) (by rfl)
    (by decide +kernel) (by decide +kernel)
  have hlookup : s.windows.lookup (lit "s") = some [numbered 1, numbered 2, numbered 3] := by
    decide +kernel
  obtain rfl : events = _ := Option.some.inj (hevents.symm.trans hlookup)
  have hnames : r.Names (lit "s") ⟨0, 3⟩ [numbered 1, numbered 2, numbered 3] :=
    ⟨[], [(0, numbered 1), (1, numbered 2), (2, numbered 3)], by decide +kernel, by decide +kernel,
      rfl⟩
  exact ⟨hlookup, hnames, hconverse (by decide +kernel) hnames⟩

/-- A stream with a ring of one slot and one event in it. -/
def pushedOnce : List (RegistryOp 76) :=
  [.ensureStream (lit "s") .one, .push (numbered 1)]

def pushedRing : StreamRing 76 :=
  ⟨lit "s", ((RingBuffer.new .one).write (numbered 1)).2⟩

/-- A second event pushed between the bounds and the copy of the first: the window has it instead
of the first. -/
theorem delivered_overwritten :
    let r := (RegistryRun.fresh [0] false).run pushedOnce
    let s := (start r {} (lastEvents 1)).run [.other (.push (numbered 2)), .copy]
    r.registry.rings.lookup (lit "s") = some pushedRing ∧
      (infos r {} (lastEvents 1)).lookup (lit "s") = some ⟨0, 1⟩ ∧
      (⟨0, 1⟩ : RingView).size.toNat ≤ pushedRing.ring.capacity.size ∧ s.pending = [] ∧
      s.windows.lookup (lit "s") = some [numbered 2] ∧
      ¬ r.Names (lit "s") ⟨0, 1⟩ [numbered 2] := by
  intro r s
  refine ⟨by rfl, by decide +kernel, by decide +kernel, by decide +kernel, by decide +kernel,
    fun hnames => ?_⟩
  have heq := hnames.eq (by decide)
  exact absurd heq (by decide +kernel)

end SnapshotCopy

end Mawmaw.Core
