import Mawmaw.Server.Statistics

/-!
# What a pack reports of a script

* `Reports` : an entry reports the number, the average, the least and the greatest duration of some
  calls;
* `packed_entry_exact` : a pack that gets the lock reports the calls since the pack before it;
* `packed_entry_missing` : as many calls as the counter has values leave no entry.
-/

namespace Mawmaw.Server
open Mawmaw.Lib Mawmaw.Core Mawmaw.Pub

variable {ι : Type}

section Reports
variable {call : ι → Invocation}

/-- The entry reports exactly the calls `calls`. -/
structure Reports (call : ι → Invocation) (calls : Finset ι) (e : ScriptEntry) : Prop where
  count : e.count.toNat = calls.card
  avg : e.avg.toNat = (∑ i ∈ calls, (durations call i).toNat) / calls.card
  min_le : ∀ i ∈ calls, e.min ≤ durations call i
  min_mem : ∃ i ∈ calls, e.min = durations call i
  le_max : ∀ i ∈ calls, durations call i ≤ e.max
  max_mem : ∃ i ∈ calls, e.max = durations call i

theorem Reports.ordered {calls : Finset ι} {e : ScriptEntry} (h : Reports call calls e) :
    e.min ≤ e.avg ∧ e.avg ≤ e.max := by
  obtain ⟨i, hi, -⟩ := h.min_mem
  have hpos : 0 < calls.card := Finset.card_pos.mpr ⟨i, hi⟩
  have hlow : calls.card • e.min.toNat ≤ ∑ i ∈ calls, (durations call i).toNat :=
    Finset.card_nsmul_le_sum _ _ _ fun j hj => UInt64.le_iff_toNat_le.mp (h.min_le j hj)
  have hhigh : ∑ i ∈ calls, (durations call i).toNat ≤ calls.card • e.max.toNat :=
    Finset.sum_le_card_nsmul _ _ _ fun j hj => UInt64.le_iff_toNat_le.mp (h.le_max j hj)
  rw [Nat.nsmul_eq_mul, Nat.mul_comm] at hlow hhigh
  rw [UInt64.le_iff_toNat_le, UInt64.le_iff_toNat_le, h.avg]
  exact ⟨(Nat.le_div_iff_mul_le hpos).mpr hlow, Nat.div_le_of_le_mul (by rwa [Nat.mul_comm])⟩

/-- When every call is done, the statistics are those of all of them. -/
theorem reports_of_counts {phase : ι → InvokePhase} {calls : Finset ι} {st : ScriptStats}
    (h : Counts call phase calls st) (hdone : ∀ i ∈ calls, phase i = .done)
    (hne : calls.Nonempty) (hdur : ∀ i ∈ calls, durations call i < uint64Max)
    (hsum : ∑ i ∈ calls, (durations call i).toNat < 2 ^ 64) (hcard : calls.card < 2 ^ 64)
    (scriptId : Str) :
    0 < st.count ∧ Reports call calls (packedStats (scriptId, st)) := by
  have hall : ∀ f : InvokePhase → Bool, f .done = true →
      calls.filter (fun i => (f ∘ phase) i = true) = calls := by
    intro f hf
    refine Finset.filter_true_of_mem fun i hi => ?_
    rw [Function.comp_apply, hdone i hi, hf]
  have hcount : st.count.toNat = calls.card := by
    rw [h.count, hall _ rfl, Finset.sum_const, Nat.nsmul_eq_mul, Nat.mul_one, UInt64.toNat_ofNat',
      Nat.mod_eq_of_lt hcard]
  have htotal : st.totalLatencyNs.toNat = ∑ i ∈ calls, (durations call i).toNat := by
    rw [h.total, hall _ rfl, UInt64.toNat_ofNat', Nat.mod_eq_of_lt hsum]
  have hpos : 0 < st.count := by
    rw [UInt64.lt_iff_toNat_lt, hcount]
    exact Finset.card_pos.mpr hne
  have hmin_le : ∀ i ∈ calls, st.minLatencyNs ≤ durations call i := by
    intro i hi
    have hnot := h.min.past i hi (by rw [Function.comp_apply, hdone i hi]; rfl)
    simpa [shorter] using hnot
  have hle_max : ∀ i ∈ calls, durations call i ≤ st.maxLatencyNs := by
    intro i hi
    have hnot := h.max.past i hi (by rw [Function.comp_apply, hdone i hi]; rfl)
    simpa [longer] using hnot
  obtain ⟨j, hj⟩ := hne
  -- the sentinel is above every duration
  have hmin_mem : ∃ i ∈ calls, st.minLatencyNs = durations call i := by
    rcases h.min.mem with hinit | ⟨i, hi, -, hmin⟩
    · have hlt := UInt64.lt_of_le_of_lt (hinit ▸ hmin_le j hj) (hdur j hj)
      exact absurd hlt (UInt64.lt_irrefl _)
    · exact ⟨i, hi, hmin⟩
  have hmax_mem : ∃ i ∈ calls, st.maxLatencyNs = durations call i := by
    rcases h.max.mem with hinit | ⟨i, hi, -, hmax⟩
    · refine ⟨j, hj, ?_⟩
      have hle := hle_max j hj
      rw [hinit] at hle ⊢
      exact (UInt64.le_antisymm hle (UInt64.zero_le)).symm
    · exact ⟨i, hi, hmax⟩
  have hshown : ScriptSnapshot.minLatencyNs st = st.minLatencyNs := by
    obtain ⟨i, hi, hmin⟩ := hmin_mem
    rw [ScriptSnapshot.minLatencyNs, if_neg]
    rw [hmin]
    exact UInt64.ne_of_lt (hdur i hi)
  refine ⟨hpos, hcount, ?_, ?_, ?_, hle_max, hmax_mem⟩
  · show (ScriptSnapshot.avgLatencyNs st).toNat = _
    rw [ScriptSnapshot.avgLatencyNs, if_pos hpos, UInt64.toNat_div, htotal, hcount]
  · intro i hi
    show ScriptSnapshot.minLatencyNs st ≤ _
    rw [hshown]
    exact hmin_le i hi
  · obtain ⟨i, hi, hmin⟩ := hmin_mem
    exact ⟨i, hi, hshown.trans hmin⟩

end Reports

namespace StatsRun

/-- The entries a pack would make for a script. -/
def entriesOf (s : StatsRun ι) (scriptId : Str) (timestampNs now : UInt64) :
    List (Str × ScriptStats) :=
  (s.tel.scriptSnapshot timestampNs now).entries.filter fun e => e.1 = scriptId

theorem entriesOf_eq {s : StatsRun ι} {scriptId : Str} {st : ScriptStats}
    (hst : s.tel.scriptStats.lookup scriptId = some st) (timestampNs now : UInt64) :
    s.entriesOf scriptId timestampNs now = if 0 < st.count then [(scriptId, st)] else [] := by
  rw [entriesOf, Telemetry.scriptSnapshot, List.filter_comm, UMap.filter_toPairs hst]
  split <;> simp_all

variable [DecidableEq ι]

/-- After any run, a pack that gets the lock has an entry for a registered script exactly when the
script was called since the previous pack, and the entry reports those calls. -/
theorem packed_entry_exact (call : ι → Invocation) (enabled : Bool) (turns : List (StatsTurn ι))
    (scriptId : Str) (timestampNs now : UInt64) :
    let s := (start enabled).run call turns
    let calls := s.ofScript call scriptId
    s.Unlocked → (s.tel.scriptStats.lookup scriptId).isSome →
    (∀ i ∈ calls, (call i).durationNs < uint64Max) →
    ∑ i ∈ calls, (call i).durationNs.toNat < 2 ^ 64 → calls.card < 2 ^ 64 →
    (calls = ∅ → s.entriesOf scriptId timestampNs now = []) ∧
      (calls.Nonempty → ∃ e, s.entriesOf scriptId timestampNs now = [e] ∧
        Reports call calls (packedStats e) ∧
        (packedStats e).min ≤ (packedStats e).avg ∧ (packedStats e).avg ≤ (packedStats e).max) := by
  intro s calls hunlocked hreg hdur hsum hcard
  have hinv : Inv call s := inv_run call enabled turns
  obtain ⟨st, hst⟩ := Option.isSome_iff_exists.mp hreg
  have hcounts : Counts call s.phase calls st := hinv.counts scriptId st hst
  rw [entriesOf_eq hst]
  constructor
  · intro hempty
    rw [hempty] at hcounts
    rw [if_neg]
    rw [hcounts.count]
    simp
  · intro hne
    have hdone : ∀ i ∈ calls, s.phase i = .done := fun i hi =>
      hunlocked i (Finset.mem_filter.mp hi).1
    obtain ⟨hpos, hreports⟩ := reports_of_counts hcounts hdone hne hdur hsum hcard scriptId
    rw [if_pos hpos]
    exact ⟨_, rfl, hreports, hreports.ordered⟩

/-! Two calls of one script side by side, the second between the first's steps. -/

def twoCalls : Fin 2 → Invocation
  | 0 => ⟨lit "a", 5⟩
  | 1 => ⟨lit "a", 3⟩

def sideBySide : List (StatsTurn (Fin 2)) :=
  .register (lit "a") :: List.replicate 6 (.invoke 0 false) ++ List.replicate 9 (.invoke 1 false)
    ++ List.replicate 4 (.invoke 0 false)

theorem packed_entry_exact_two :
    let s := (start true).run twoCalls sideBySide
    ∃ e, s.entriesOf (lit "a") 1 2 = [e] ∧
      Reports twoCalls (s.ofScript twoCalls (lit "a")) (packedStats e) ∧
      (packedStats e).min ≤ (packedStats e).avg ∧ (packedStats e).avg ≤ (packedStats e).max :=
  (packed_entry_exact twoCalls true sideBySide (lit "a") 1 2 (by decide +kernel) (by decide +kernel)
    (by decide +kernel) (by decide +kernel) (by decide +kernel)).2 (by decide +kernel)

/-! Calls one after the other, of no duration. -/

def noDuration (_ : Nat) : Invocation := ⟨lit "a", 0⟩

def oneByOne (n : Nat) : List (StatsTurn Nat) :=
  .register (lit "a") :: (List.range n).flatMap fun i => List.replicate 9 (.invoke i false)

structure OneByOne (n : Nat) (s : StatsRun Nat) : Prop where
  enabled : s.tel.enabled = true
  registered : (s.tel.scriptStats.lookup (lit "a")).isSome
  period : s.period = Finset.range n
  done : ∀ i < n, s.phase i = .done
  idle : ∀ i, n ≤ i → s.phase i = .idle

theorem run_oneByOne (n : Nat) : OneByOne n ((start true).run noDuration (oneByOne n)) := by
  induction n with
  | zero =>
      refine ⟨rfl, by decide +kernel, rfl, fun i hi => absurd hi (Nat.not_lt_zero i), fun i _ => rfl⟩
  | succ n ih =>
      obtain ⟨st, hst⟩ := Option.isSome_iff_exists.mp ih.registered
      have hturns : oneByOne (n + 1) = oneByOne n ++ List.replicate 9 (.invoke n false) := by
        simp [oneByOne, List.range_succ]
      rw [hturns, run, List.foldl_append, ← run, ← run,
        registered_alone noDuration _ n (ih.idle n (Nat.le_refl n)) ih.enabled hst]
      refine ⟨ih.enabled, ?_, ?_, fun i hi => ?_, fun i hi => ?_⟩
      · simp [inside, setStats, noDuration]
      · show insert n _ = _
        rw [ih.period, Finset.range_add_one]
      · simp only [inside, advance_phase]
        by_cases hin : i = n
        · rw [hin, Function.update_self]
        · rw [Function.update_of_ne hin]
          exact ih.done i (by omega)
      · simp only [inside, advance_phase]
        rw [Function.update_of_ne (by omega)]
        exact ih.idle i (by omega)

/-- When the counter of calls comes round to zero, a script that was called has no entry. -/
theorem oneByOne_missing {n : Nat} (hn : UInt64.ofNat n = 0) :
    let s := (start true).run noDuration (oneByOne n)
    s.Unlocked ∧ (s.tel.scriptStats.lookup (lit "a")).isSome ∧
      (∀ i, (noDuration i).durationNs < uint64Max) ∧
      ∑ i ∈ s.ofScript noDuration (lit "a"), (noDuration i).durationNs.toNat < 2 ^ 64 ∧
      (s.ofScript noDuration (lit "a")).card = n ∧ s.entriesOf (lit "a") 0 0 = [] := by
  intro s
  have hone : OneByOne n s := run_oneByOne n
  obtain ⟨st, hst⟩ := Option.isSome_iff_exists.mp hone.registered
  have hcalls : s.ofScript noDuration (lit "a") = Finset.range n := by
    rw [ofScript, hone.period]
    exact Finset.filter_true_of_mem fun i _ => rfl
  have hcount : st.count = 0 := by
    rw [((inv_run noDuration true (oneByOne n)).counts (lit "a") st hst).count]
    rw [hcalls, Finset.filter_true_of_mem, Finset.sum_const, Finset.card_range,
      Nat.nsmul_eq_mul, Nat.mul_one, hn]
    intro i hi
    rw [Function.comp_apply, hone.done i (Finset.mem_range.mp hi)]
    rfl
  refine ⟨fun i hi => ?_, hone.registered, fun i => ?_, ?_, ?_, ?_⟩
  · rw [hone.period] at hi
    exact hone.done i (Finset.mem_range.mp hi)
  · show (0 : UInt64) < uint64Max
    decide
  · show ∑ _i ∈ s.ofScript noDuration (lit "a"), 0 < 2 ^ 64
    rw [Finset.sum_const_zero]
    exact Nat.two_pow_pos 64
  · rw [hcalls, Finset.card_range]
  · rw [entriesOf_eq hst, hcount, if_neg (UInt64.lt_irrefl 0)]

theorem packed_entry_missing :
    let s := (start true).run noDuration (oneByOne (2 ^ 64))
    s.Unlocked ∧ (s.tel.scriptStats.lookup (lit "a")).isSome ∧
      (∀ i, (noDuration i).durationNs < uint64Max) ∧
      ∑ i ∈ s.ofScript noDuration (lit "a"), (noDuration i).durationNs.toNat < 2 ^ 64 ∧
      (s.ofScript noDuration (lit "a")).card = 2 ^ 64 ∧ s.entriesOf (lit "a") 0 0 = [] :=
  oneByOne_missing rfl

end StatsRun

end Mawmaw.Server
