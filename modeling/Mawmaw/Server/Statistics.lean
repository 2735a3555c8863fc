import Mathlib.Algebra.Order.BigOperators.Group.Finset
import Mawmaw.Lib.Accumulator
import Mawmaw.Lib.Schedule
import Mawmaw.Server.Snapshots

/-!
# Script statistics under concurrent calls

`record_script_invocation` atomic step by atomic step, by any number of threads, with
`pack_script_metrics` in between. A call holds the shared lock from its lookup to its last step, so
the packer, which wants the lock for itself, waits for all calls that are past their lookup.

* `InvokePhase`, `invokeRound` : how far a call is, and its next step on the script's statistics;
* `StatsRun.step` : one step of a call, a pack, a registration;
* `invoke_alone` : an uninterrupted call is `recordScriptInvocation`;
* `Counts` : a script's statistics count exactly what its calls have done so far;
* `inv_run` : they do after every run.
-/

namespace Mawmaw.Server
open Mawmaw.Lib Mawmaw.Core Mawmaw.Pub

variable {ι : Type}

/-- The arguments of a call of `record_script_invocation`. -/
structure Invocation where
  script : Str
  durationNs : UInt64

/-- `entered`: the calls are counted at all; `found`: the lock is held and the script's statistics
are found. -/
inductive InvokePhase
  | idle
  | entered
  | found
  | counted
  | added
  | minLoop (cur : UInt64)
  | minDone
  | maxLoop (cur : UInt64)
  | maxDone
  | done
  deriving DecidableEq, Repr

namespace InvokePhase

/-- The call has counted itself. -/
def hasCounted : InvokePhase → Bool
  | .idle | .entered | .found => false
  | _ => true

/-- The call has added its duration to the total. -/
def hasAdded : InvokePhase → Bool
  | .idle | .entered | .found | .counted => false
  | _ => true

def minStage : InvokePhase → Stage UInt64
  | .idle | .entered | .found | .counted | .added => .before
  | .minLoop cur => .looping cur
  | _ => .past

def maxStage : InvokePhase → Stage UInt64
  | .idle | .entered | .found | .counted | .added | .minLoop _ | .minDone => .before
  | .maxLoop cur => .looping cur
  | .maxDone | .done => .past

end InvokePhase

def shorter (a b : UInt64) : Bool := a < b

def longer (a b : UInt64) : Bool := a > b

/-- The next step of a call between its lookup and its unlocking: its phase and the statistics after
it. `fails` says whether a compare-and-exchange fails although the value is the expected one. -/
def invokeRound (durationNs : UInt64) (fails : Bool) (st : ScriptStats) :
    InvokePhase → InvokePhase × ScriptStats
  | .found => (.counted, { st with count := st.count + 1 })
  | .counted => (.added, { st with totalLatencyNs := st.totalLatencyNs + durationNs })
  | .added => (.minLoop st.minLatencyNs, st)
  | .minLoop cur =>
    let r := casRound shorter durationNs cur fails st.minLatencyNs
    (r.1.elim .minDone .minLoop, { st with minLatencyNs := r.2 })
  | .minDone => (.maxLoop st.maxLatencyNs, st)
  | .maxLoop cur =>
    let r := casRound longer durationNs cur fails st.maxLatencyNs
    (r.1.elim .maxDone .maxLoop, { st with maxLatencyNs := r.2 })
  | .idle => (.idle, st)
  | .entered => (.entered, st)
  | .maxDone => (.maxDone, st)
  | .done => (.done, st)

/-- `period` are the calls that have found their script since the last pack; those that are not done
hold the shared lock. -/
structure StatsRun (ι : Type) where
  tel : Telemetry
  period : Finset ι := ∅
  phase : ι → InvokePhase := fun _ => .idle

/-- The statistics after a pack. -/
def resetScriptStats (tel : Telemetry) : Telemetry :=
  { tel with scriptStats := tel.scriptStats.collect fun _ _ => some {} }

theorem packScriptMetrics_snd (P : Nat) (tel : Telemetry) (timestampNs now : UInt64) :
    (tel.packScriptMetrics P timestampNs now).2 = resetScriptStats tel := rfl

inductive StatsTurn (ι : Type)
  | invoke (i : ι) (fails : Bool)
  | pack
  | register (scriptId : Str)
  | setEnabled (en : Bool)

namespace StatsRun

def start (enabled : Bool) : StatsRun ι := { tel := { enabled } }

/-- Nobody holds the shared lock. -/
def Unlocked (s : StatsRun ι) : Prop := ∀ i ∈ s.period, s.phase i = .done

instance (s : StatsRun ι) : Decidable s.Unlocked :=
  inferInstanceAs (Decidable (∀ i ∈ s.period, s.phase i = .done))

variable [DecidableEq ι]

def advance (s : StatsRun ι) (i : ι) (x : InvokePhase) : StatsRun ι :=
  { s with phase := Function.update s.phase i x }

def setStats (s : StatsRun ι) (scriptId : Str) (st : ScriptStats) : StatsRun ι :=
  { s with tel := { s.tel with scriptStats := s.tel.scriptStats.insert scriptId st } }

/-- The next step of call `i`. -/
def invoke (call : ι → Invocation) (s : StatsRun ι) (i : ι) (fails : Bool) : StatsRun ι :=
  match s.phase i with
  | .idle => if !s.tel.enabled then s.advance i .done else s.advance i .entered
  | .entered =>
    match s.tel.scriptStats.lookup (call i).script with
    | none => s.advance i .done
    | some _ => { s with period := insert i s.period }.advance i .found
  | .maxDone => s.advance i .done
  | .done => s
  | phase =>
    match s.tel.scriptStats.lookup (call i).script with
    | none => s
    | some st =>
      let r := invokeRound (call i).durationNs fails st phase
      (s.setStats (call i).script r.2).advance i r.1

/-- One step; a pack or a registration waits until it can have the lock for itself. -/
def step (call : ι → Invocation) (s : StatsRun ι) : StatsTurn ι → StatsRun ι
  | .invoke i fails => s.invoke call i fails
  | .pack =>
    if s.Unlocked then
      { s with tel := resetScriptStats s.tel, period := ∅ }
    else s
  | .register scriptId =>
    if s.Unlocked then { s with tel := s.tel.registerScriptStats scriptId } else s
  | .setEnabled en => { s with tel := { s.tel with enabled := en } }

def run (call : ι → Invocation) (s : StatsRun ι) (turns : List (StatsTurn ι)) : StatsRun ι :=
  turns.foldl (step call) s

/-! ## A call without interruption -/

theorem invoke_found {call : ι → Invocation} {s : StatsRun ι} {i : ι} {st : ScriptStats}
    (hst : s.tel.scriptStats.lookup (call i).script = some st) (fails : Bool)
    (hph : s.phase i ≠ .idle ∧ s.phase i ≠ .entered ∧ s.phase i ≠ .maxDone ∧ s.phase i ≠ .done) :
    s.invoke call i fails
      = (s.setStats (call i).script
          (invokeRound (call i).durationNs fails st (s.phase i)).2).advance i
            (invokeRound (call i).durationNs fails st (s.phase i)).1 := by
  obtain ⟨hidle, hentered, hmaxDone, hdone⟩ := hph
  unfold invoke
  split
  · contradiction
  · contradiction
  · contradiction
  · contradiction
  · simp only [hst]

@[simp] theorem advance_phase (s : StatsRun ι) (i : ι) (x : InvokePhase) :
    (s.advance i x).phase = Function.update s.phase i x := rfl

@[simp] theorem advance_tel (s : StatsRun ι) (i : ι) (x : InvokePhase) :
    (s.advance i x).tel = s.tel := rfl

/-- The state of a call alone between its lookup and its unlocking. -/
def inside (call : ι → Invocation) (s : StatsRun ι) (i : ι) (r : InvokePhase × ScriptStats) :
    StatsRun ι :=
  (s.setStats (call i).script r.2).advance i r.1

theorem invoke_inside (call : ι → Invocation) (s : StatsRun ι) (i : ι) (x : InvokePhase)
    (st : ScriptStats) (hx : x ≠ .idle ∧ x ≠ .entered ∧ x ≠ .maxDone ∧ x ≠ .done) :
    (s.inside call i (x, st)).invoke call i false
      = s.inside call i (invokeRound (call i).durationNs false st x) := by
  have hph : (s.inside call i (x, st)).phase i = x := by simp [inside]
  have hst : (s.inside call i (x, st)).tel.scriptStats.lookup (call i).script = some st :=
    AList.lookup_insert _
  rw [invoke_found hst false (by rw [hph]; exact hx), hph]
  simp [inside, setStats, advance]

theorem minRound_alone (durationNs : UInt64) (st : ScriptStats) :
    invokeRound durationNs false st (.minLoop st.minLatencyNs)
      = (.minDone, { st with
          minLatencyNs := if shorter durationNs st.minLatencyNs then durationNs
            else st.minLatencyNs }) := by
  simp [invokeRound, casRound_alone]

theorem maxRound_alone (durationNs : UInt64) (st : ScriptStats) :
    invokeRound durationNs false st (.maxLoop st.maxLatencyNs)
      = (.maxDone, { st with
          maxLatencyNs := if longer durationNs st.maxLatencyNs then durationNs
            else st.maxLatencyNs }) := by
  simp [invokeRound, casRound_alone]

/-- The statistics after a whole call. -/
def recorded (durationNs : UInt64) (st : ScriptStats) : ScriptStats where
  count := st.count + 1
  totalLatencyNs := st.totalLatencyNs + durationNs
  minLatencyNs := if shorter durationNs st.minLatencyNs then durationNs else st.minLatencyNs
  maxLatencyNs := if longer durationNs st.maxLatencyNs then durationNs else st.maxLatencyNs

/-- The steps of a call alone after its lookup. -/
theorem found_alone (call : ι → Invocation) (s : StatsRun ι) (i : ι) {st : ScriptStats}
    (hst : s.tel.scriptStats.lookup (call i).script = some st) (hfound : s.phase i = .found) :
    s.run call (List.replicate 7 (.invoke i false))
      = s.inside call i (.done, recorded (call i).durationNs st) := by
  have hcounted : s.invoke call i false
      = s.inside call i (.counted, { st with count := st.count + 1 }) := by
    rw [invoke_found hst false (by simp [hfound]), hfound]
    rfl
  simp only [run, List.replicate, List.foldl, step]
  rw [hcounted, invoke_inside _ _ _ .counted _ (by simp)]
  simp only [invokeRound]
  rw [invoke_inside _ _ _ .added _ (by simp)]
  simp only [invokeRound]
  rw [invoke_inside _ _ _ (.minLoop _) _ (by simp), minRound_alone,
    invoke_inside _ _ _ .minDone _ (by simp)]
  simp only [invokeRound]
  rw [invoke_inside _ _ _ (.maxLoop _) _ (by simp), maxRound_alone]
  simp [inside, invoke, setStats, advance, recorded]

/-- A call of a registered script that nobody interrupts. -/
theorem registered_alone (call : ι → Invocation) (s : StatsRun ι) (i : ι) {st : ScriptStats}
    (hidle : s.phase i = .idle) (henabled : s.tel.enabled = true)
    (hst : s.tel.scriptStats.lookup (call i).script = some st) :
    s.run call (List.replicate 9 (.invoke i false))
      = { s with period := insert i s.period }.inside call i
          (.done, recorded (call i).durationNs st) := by
  have hfirst : s.invoke call i false = s.advance i .entered := by
    rw [invoke, hidle, henabled]
    rfl
  have hsecond : (s.advance i .entered).invoke call i false
      = { s with period := insert i s.period }.advance i .found := by
    rw [invoke, advance_phase, Function.update_self, advance_tel, hst]
    simp [advance]
  rw [List.replicate_succ, run, List.foldl_cons, step, hfirst, List.replicate_succ,
    List.foldl_cons, step, hsecond, ← run]
  have hrest := found_alone call ({ s with period := insert i s.period }.advance i .found) i hst
    (by simp)
  rw [hrest]
  simp [inside, setStats, advance]

/-- A call that nobody interrupts is `recordScriptInvocation`. -/
theorem invoke_alone (call : ι → Invocation) (s : StatsRun ι) (i : ι) (hidle : s.phase i = .idle) :
    (s.run call (List.replicate 9 (.invoke i false))).tel
        = s.tel.recordScriptInvocation (call i).script (call i).durationNs ∧
      (s.run call (List.replicate 9 (.invoke i false))).phase i = .done := by
  have hdone : ∀ (n : Nat) (t : StatsRun ι), t.phase i = .done →
      t.run call (List.replicate n (.invoke i false)) = t := by
    intro n t ht
    have hstay : t.invoke call i false = t := by
      unfold invoke
      rw [ht]
    induction n with
    | zero => rfl
    | succ n ih => rw [List.replicate_succ, run, List.foldl_cons, step, hstay, ← run, ih]
  rw [Telemetry.recordScriptInvocation]
  cases hen : s.tel.enabled with
  | false =>
      have hfirst : s.invoke call i false = s.advance i .done := by
        rw [invoke, hidle, hen]
        rfl
      rw [List.replicate_succ, run, List.foldl_cons, step, hfirst, ← run, hdone 8 _ (by simp)]
      simp
  | true =>
      cases hst : s.tel.scriptStats.lookup (call i).script with
      | none =>
          have hfirst : s.invoke call i false = s.advance i .entered := by
            rw [invoke, hidle, hen]
            rfl
          have hsecond : (s.advance i .entered).invoke call i false = s.advance i .done := by
            rw [invoke, advance_phase, Function.update_self, advance_tel, hst]
            simp [advance]
          rw [List.replicate_succ, run, List.foldl_cons, step, hfirst, List.replicate_succ,
            List.foldl_cons, step, hsecond, ← run, hdone 7 _ (by simp)]
          simp
      | some st =>
          rw [registered_alone call s i hidle hen hst]
          simp [inside, setStats, recorded, shorter, longer, hen]

/-! ## What the statistics count -/

/-- The calls on a script that have found it since the last pack. -/
def ofScript (s : StatsRun ι) (call : ι → Invocation) (scriptId : Str) : Finset ι :=
  s.period.filter fun i => (call i).script = scriptId

end StatsRun

def durations (call : ι → Invocation) (i : ι) : UInt64 := (call i).durationNs

/-- The statistics are those of what `calls` have done so far. -/
structure Counts (call : ι → Invocation) (phase : ι → InvokePhase) (calls : Finset ι)
    (st : ScriptStats) : Prop where
  count : st.count = UInt64.ofNat (∑ i ∈ calls with (InvokePhase.hasCounted ∘ phase) i, 1)
  total : st.totalLatencyNs
    = UInt64.ofNat (∑ i ∈ calls with (InvokePhase.hasAdded ∘ phase) i, (durations call i).toNat)
  min : Tracks shorter uint64Max st.minLatencyNs calls (durations call)
    (InvokePhase.minStage ∘ phase)
  max : Tracks longer 0 st.maxLatencyNs calls (durations call) (InvokePhase.maxStage ∘ phase)

theorem isBetter_shorter : IsBetter shorter where
  irrefl a := by simp [shorter]
  trans a b c hab hbc := by
    simp only [shorter, decide_eq_true_eq] at *
    exact UInt64.lt_trans hab hbc
  negTrans a b c hab hbc := by
    simp only [shorter, decide_eq_false_iff_not, UInt64.not_lt] at *
    exact UInt64.le_trans hbc hab

theorem isBetter_longer : IsBetter longer where
  irrefl a := by simp [longer]
  trans a b c hab hbc := by
    simp only [longer, gt_iff_lt, decide_eq_true_eq] at *
    exact UInt64.lt_trans hbc hab
  negTrans a b c hab hbc := by
    simp only [longer, gt_iff_lt, decide_eq_false_iff_not, UInt64.not_lt] at *
    exact UInt64.le_trans hab hbc

/-- What a step of `i` does not change for `i`, it does not change. -/
theorem comp_update_same {β : Type} [DecidableEq ι] (f : InvokePhase → β)
    {phase : ι → InvokePhase} {i : ι} {x : InvokePhase} (h : f x = f (phase i)) :
    f ∘ Function.update phase i x = f ∘ phase := by
  rw [Function.comp_update, Function.update_eq_self_iff]
  exact h

/-! The phase after a round of a loop: -/

theorem minNext_same (o : Option UInt64) :
    (o.elim InvokePhase.minDone InvokePhase.minLoop).hasCounted = true ∧
      (o.elim InvokePhase.minDone InvokePhase.minLoop).hasAdded = true ∧
      (o.elim InvokePhase.minDone InvokePhase.minLoop).maxStage = .before := by
  cases o <;> exact ⟨rfl, rfl, rfl⟩

theorem minStage_minNext (o : Option UInt64) :
    (o.elim InvokePhase.minDone InvokePhase.minLoop).minStage = o.elim .past .looping := by
  cases o <;> rfl

theorem maxNext_same (o : Option UInt64) :
    (o.elim InvokePhase.maxDone InvokePhase.maxLoop).hasCounted = true ∧
      (o.elim InvokePhase.maxDone InvokePhase.maxLoop).hasAdded = true ∧
      (o.elim InvokePhase.maxDone InvokePhase.maxLoop).minStage = .past := by
  cases o <;> exact ⟨rfl, rfl, rfl⟩

theorem maxStage_maxNext (o : Option UInt64) :
    (o.elim InvokePhase.maxDone InvokePhase.maxLoop).maxStage = o.elim .past .looping := by
  cases o <;> rfl

/-- A call does not go back before its lookup. -/
theorem invokeRound_working (durationNs : UInt64) (fails : Bool) (st : ScriptStats)
    {x : InvokePhase} (hidle : x ≠ .idle) (hentered : x ≠ .entered) :
    (invokeRound durationNs fails st x).1 ≠ .idle ∧
      (invokeRound durationNs fails st x).1 ≠ .entered := by
  cases x with
  | idle => exact absurd rfl hidle
  | entered => exact absurd rfl hentered
  | minLoop cur => cases h : (casRound shorter durationNs cur fails st.minLatencyNs).1 <;>
      simp [invokeRound, h]
  | maxLoop cur => cases h : (casRound longer durationNs cur fails st.maxLatencyNs).1 <;>
      simp [invokeRound, h]
  | found | counted | added | minDone | maxDone | done => simp [invokeRound]

namespace Counts
variable {call : ι → Invocation} {phase phase' : ι → InvokePhase} {calls : Finset ι}
  {st : ScriptStats}

theorem empty (call : ι → Invocation) (phase : ι → InvokePhase) : Counts call phase ∅ {} where
  count := rfl
  total := rfl
  min := Tracks.empty ..
  max := Tracks.empty ..

/-- Steps of calls on other scripts. -/
theorem congr (h : Counts call phase calls st) (hph : ∀ i ∈ calls, phase' i = phase i) :
    Counts call phase' calls st := by
  have hhas : ∀ f : InvokePhase → Bool, calls.filter (fun i => (f ∘ phase') i = true)
      = calls.filter fun i => (f ∘ phase) i = true := by
    intro f
    refine Finset.filter_congr fun i hi => ?_
    rw [Function.comp_apply, Function.comp_apply, hph i hi]
  refine ⟨?_, ?_, h.min.congr ?_, h.max.congr ?_⟩
  · rw [hhas]
    exact h.count
  · rw [hhas]
    exact h.total
  · intro i hi
    exact congrArg InvokePhase.minStage (hph i hi)
  · intro i hi
    exact congrArg InvokePhase.maxStage (hph i hi)

variable [DecidableEq ι] {i : ι}

/-- A call has found the script. -/
theorem found (h : Counts call phase calls st) (hi : i ∉ calls) :
    Counts call (Function.update phase i .found) (insert i calls) st := by
  have hself : Function.update phase i .found i = .found := Function.update_self ..
  have h' : Counts call (Function.update phase i .found) calls st :=
    h.congr fun j hj => Function.update_of_ne (ne_of_mem_of_not_mem hj hi) ..
  refine ⟨?_, ?_, h'.min.insert ?_, h'.max.insert ?_⟩
  · rw [Finset.filter_insert, if_neg (by simp [InvokePhase.hasCounted])]
    exact h'.count
  · rw [Finset.filter_insert, if_neg (by simp [InvokePhase.hasAdded])]
    exact h'.total
  · rw [Function.comp_apply, hself]
    rfl
  · rw [Function.comp_apply, hself]
    rfl

/-- The steps of a call between its lookup and its unlocking. -/
theorem round (h : Counts call phase calls st) (hi : i ∈ calls) (fails : Bool)
    (hph : phase i ≠ .idle ∧ phase i ≠ .entered) :
    Counts call
      (Function.update phase i (invokeRound (call i).durationNs fails st (phase i)).1) calls
      (invokeRound (call i).durationNs fails st (phase i)).2 := by
  -- a step that leaves the phase leaves everything
  have hstay : ∀ x, phase i = x → Counts call (Function.update phase i x) calls st := by
    intro x hx
    rw [← hx, Function.update_eq_self]
    exact h
  cases hx : phase i with
  | idle => exact absurd hx hph.1
  | entered => exact absurd hx hph.2
  | found =>
      refine ⟨?_, ?_, ?_, ?_⟩
      · rw [sum_filter_update _ hi (by rw [hx]; rfl) rfl, UInt64.ofNat_add, ← h.count]
        rfl
      · rw [comp_update_same _ (by rw [hx]; rfl)]
        exact h.total
      · rw [comp_update_same _ (by rw [hx]; rfl)]
        exact h.min
      · rw [comp_update_same _ (by rw [hx]; rfl)]
        exact h.max
  | counted =>
      refine ⟨?_, ?_, ?_, ?_⟩
      · rw [comp_update_same _ (by rw [hx]; rfl)]
        exact h.count
      · rw [sum_filter_update _ hi (by rw [hx]; rfl) rfl, UInt64.ofNat_add, ← h.total, durations,
          UInt64.ofNat_toNat]
        rfl
      · rw [comp_update_same _ (by rw [hx]; rfl)]
        exact h.min
      · rw [comp_update_same _ (by rw [hx]; rfl)]
        exact h.max
  | added =>
      refine ⟨?_, ?_, ?_, ?_⟩
      · rw [comp_update_same _ (by rw [hx]; rfl)]
        exact h.count
      · rw [comp_update_same _ (by rw [hx]; rfl)]
        exact h.total
      · rw [Function.comp_update]
        refine h.min.load isBetter_shorter ?_
        rw [Function.comp_apply, hx]
        simp [InvokePhase.minStage]
      · rw [comp_update_same _ (by rw [hx]; rfl)]
        exact h.max
  | minLoop cur =>
      have hcas := h.min.cas isBetter_shorter hi ((congrArg InvokePhase.minStage hx).trans rfl) fails
      refine ⟨?_, ?_, ?_, ?_⟩
      · rw [comp_update_same _ (by rw [hx]; exact (minNext_same _).1)]
        exact h.count
      · rw [comp_update_same _ (by rw [hx]; exact (minNext_same _).2.1)]
        exact h.total
      · rw [Function.comp_update]
        exact (minStage_minNext _).symm ▸ hcas
      · rw [comp_update_same _ (by rw [hx]; exact (minNext_same _).2.2)]
        exact h.max
  | minDone =>
      refine ⟨?_, ?_, ?_, ?_⟩
      · rw [comp_update_same _ (by rw [hx]; rfl)]
        exact h.count
      · rw [comp_update_same _ (by rw [hx]; rfl)]
        exact h.total
      · rw [comp_update_same _ (by rw [hx]; rfl)]
        exact h.min
      · rw [Function.comp_update]
        refine h.max.load isBetter_longer ?_
        rw [Function.comp_apply, hx]
        simp [InvokePhase.maxStage]
  | maxLoop cur =>
      have hcas := h.max.cas isBetter_longer hi ((congrArg InvokePhase.maxStage hx).trans rfl) fails
      refine ⟨?_, ?_, ?_, ?_⟩
      · rw [comp_update_same _ (by rw [hx]; exact (maxNext_same _).1)]
        exact h.count
      · rw [comp_update_same _ (by rw [hx]; exact (maxNext_same _).2.1)]
        exact h.total
      · rw [comp_update_same _ (by rw [hx]; exact (maxNext_same _).2.2)]
        exact h.min
      · rw [Function.comp_update]
        exact (maxStage_maxNext _).symm ▸ hcas
  | maxDone => exact hstay .maxDone hx
  | done => exact hstay .done hx

theorem unlock (h : Counts call phase calls st) (hx : phase i = .maxDone) :
    Counts call (Function.update phase i .done) calls st := by
  refine ⟨?_, ?_, ?_, ?_⟩
  · rw [comp_update_same _ (by rw [hx]; rfl)]
    exact h.count
  · rw [comp_update_same _ (by rw [hx]; rfl)]
    exact h.total
  · rw [comp_update_same _ (by rw [hx]; rfl)]
    exact h.min
  · rw [comp_update_same _ (by rw [hx]; rfl)]
    exact h.max

end Counts

namespace StatsRun
variable {call : ι → Invocation} {s : StatsRun ι}

structure Inv (call : ι → Invocation) (s : StatsRun ι) : Prop where
  found : ∀ i ∈ s.period, s.phase i ≠ .idle ∧ s.phase i ≠ .entered
  working : ∀ i, s.phase i ≠ .idle → s.phase i ≠ .entered → s.phase i ≠ .done → i ∈ s.period
  registered : ∀ i ∈ s.period, (s.tel.scriptStats.lookup (call i).script).isSome
  counts : ∀ id st, s.tel.scriptStats.lookup id = some st →
    Counts call s.phase (s.ofScript call id) st

theorem inv_start (call : ι → Invocation) (enabled : Bool) : Inv call (start enabled) where
  found i hi := absurd hi (Finset.notMem_empty i)
  working i hidle := absurd rfl hidle
  registered i hi := absurd hi (Finset.notMem_empty i)
  counts id st hst := by
    rw [start, AList.lookup_empty] at hst
    cases hst

theorem Inv.pack (h : Inv call s) (hunlocked : s.Unlocked) :
    Inv call { s with tel := resetScriptStats s.tel, period := ∅ } where
  found i hi := absurd hi (Finset.notMem_empty i)
  working i hidle hentered hdone :=
    absurd (hunlocked i (h.working i hidle hentered hdone)) hdone
  registered i hi := absurd hi (Finset.notMem_empty i)
  counts id st hst := by
    have hlook : (s.tel.scriptStats.collect fun _ _ => some ({} : ScriptStats)).lookup id = some st :=
      hst
    rw [UMap.lookup_collect, Option.bind_eq_some_iff] at hlook
    obtain ⟨_, -, hst⟩ := hlook
    obtain rfl := Option.some.inj hst
    exact Counts.empty call s.phase

theorem Inv.register (h : Inv call s) (scriptId : Str) :
    Inv call { s with tel := s.tel.registerScriptStats scriptId } := by
  unfold Telemetry.registerScriptStats
  split
  · exact h
  · rename_i hnone
    refine ⟨h.found, h.working, fun i hi => ?_, fun id st hid => ?_⟩
    · show ((s.tel.scriptStats.insert scriptId {}).lookup (call i).script).isSome
      have hreg := h.registered i hi
      by_cases hscript : (call i).script = scriptId
      · rw [hscript, hnone] at hreg
        cases hreg
      · rw [AList.lookup_insert_ne hscript]
        exact hreg
    · have hlook : (s.tel.scriptStats.insert scriptId {}).lookup id = some st := hid
      by_cases hscript : id = scriptId
      · subst hscript
        rw [AList.lookup_insert] at hlook
        obtain rfl := Option.some.inj hlook
        -- nobody has found a script that was not there
        have hempty : s.ofScript call id = ∅ := by
          refine Finset.filter_eq_empty_iff.mpr fun i hi hcall => ?_
          have hreg := h.registered i hi
          rw [hcall, hnone] at hreg
          cases hreg
        show Counts call s.phase (s.ofScript call id) {}
        rw [hempty]
        exact Counts.empty call s.phase
      · rw [AList.lookup_insert_ne hscript] at hlook
        exact h.counts id st hlook

variable [DecidableEq ι]

/-- A step of a call that has not found its script, or does not find it. -/
theorem Inv.outside (h : Inv call s) {i : ι} (hi : i ∉ s.period) {x : InvokePhase}
    (hx : x = .entered ∨ x = .done) : Inv call (s.advance i x) where
  found j hj := by
    rw [advance_phase, Function.update_of_ne (ne_of_mem_of_not_mem hj hi)]
    exact h.found j hj
  working := by
    refine (Function.forall_update_iff s.phase
      fun j y => y ≠ .idle → y ≠ .entered → y ≠ .done → j ∈ s.period).2
        ⟨fun _ hentered hdone => ?_, fun j _ => h.working j⟩
    exact absurd (hx.resolve_left hentered) hdone
  registered := h.registered
  counts id st hst := by
    refine (h.counts id st hst).congr fun j hj => ?_
    exact Function.update_of_ne (ne_of_mem_of_not_mem (Finset.mem_filter.mp hj).1 hi) ..

/-- A call finds its script. -/
theorem Inv.find (h : Inv call s) {i : ι} (hi : i ∉ s.period)
    (hst : (s.tel.scriptStats.lookup (call i).script).isSome) :
    Inv call ({ s with period := insert i s.period }.advance i .found) where
  found j hj := by
    rw [advance_phase]
    rcases Finset.mem_insert.mp hj with rfl | hj
    · rw [Function.update_self]
      simp
    · rw [Function.update_of_ne (ne_of_mem_of_not_mem hj hi)]
      exact h.found j hj
  working := by
    refine (Function.forall_update_iff s.phase
      fun j y => y ≠ .idle → y ≠ .entered → y ≠ .done → j ∈ insert i s.period).2
        ⟨fun _ _ _ => Finset.mem_insert_self i s.period, ?_⟩
    exact fun j _ hidle hentered hdone =>
      Finset.mem_insert_of_mem (h.working j hidle hentered hdone)
  registered j hj := by
    rcases Finset.mem_insert.mp hj with rfl | hj
    · exact hst
    · exact h.registered j hj
  counts id st hid := by
    have hcounts := h.counts id st hid
    rw [ofScript, advance_phase]
    show Counts call _ ((insert i s.period).filter fun j => (call j).script = id) st
    rw [Finset.filter_insert]
    split
    · exact hcounts.found fun hmem => hi (Finset.mem_filter.mp hmem).1
    · refine hcounts.congr fun j hj => ?_
      exact Function.update_of_ne (ne_of_mem_of_not_mem (Finset.mem_filter.mp hj).1 hi) ..

/-- A step of a call that holds the lock, on the statistics of its script. -/
theorem Inv.inside (h : Inv call s) {i : ι} (hi : i ∈ s.period) {x : InvokePhase}
    {st : ScriptStats} (hx : x ≠ .idle ∧ x ≠ .entered)
    (hcounts : Counts call (Function.update s.phase i x) (s.ofScript call (call i).script) st) :
    Inv call ((s.setStats (call i).script st).advance i x) where
  found :=
    (Function.forall_update_iff s.phase
      fun j y => j ∈ s.period → y ≠ .idle ∧ y ≠ .entered).2 ⟨fun _ => hx, fun j _ => h.found j⟩
  working :=
    (Function.forall_update_iff s.phase
      fun j y => y ≠ .idle → y ≠ .entered → y ≠ .done → j ∈ s.period).2
        ⟨fun _ _ _ => hi, fun j _ => h.working j⟩
  registered j hj := by
    show ((s.tel.scriptStats.insert (call i).script st).lookup (call j).script).isSome
    by_cases hscript : (call j).script = (call i).script
    · rw [hscript, AList.lookup_insert]
      rfl
    · rw [AList.lookup_insert_ne hscript]
      exact h.registered j hj
  counts id st' hid := by
    have hlook : (s.tel.scriptStats.insert (call i).script st).lookup id = some st' := hid
    by_cases hscript : id = (call i).script
    · subst hscript
      rw [AList.lookup_insert] at hlook
      obtain rfl := Option.some.inj hlook
      exact hcounts
    · rw [AList.lookup_insert_ne hscript] at hlook
      refine (h.counts id st' hlook).congr fun j hj => ?_
      refine Function.update_of_ne ?_ ..
      intro hji
      subst hji
      exact hscript (Finset.mem_filter.mp hj).2.symm

theorem Inv.unlock (h : Inv call s) {i : ι} (hmaxDone : s.phase i = .maxDone) :
    Inv call (s.advance i .done) where
  found :=
    (Function.forall_update_iff s.phase
      fun j y => j ∈ s.period → y ≠ .idle ∧ y ≠ .entered).2
        ⟨fun _ => by simp, fun j _ => h.found j⟩
  working := by
    refine (Function.forall_update_iff s.phase
      fun j y => y ≠ .idle → y ≠ .entered → y ≠ .done → j ∈ s.period).2
        ⟨fun _ _ _ => ?_, fun j _ => h.working j⟩
    exact h.working i (by simp [hmaxDone]) (by simp [hmaxDone]) (by simp [hmaxDone])
  registered := h.registered
  counts id st hst := (h.counts id st hst).unlock hmaxDone

theorem Inv.invoke (h : Inv call s) (i : ι) (fails : Bool) : Inv call (s.invoke call i fails) := by
  have houtside : s.phase i = .idle ∨ s.phase i = .entered → i ∉ s.period := by
    intro hph hi
    exact hph.elim (h.found i hi).1 (h.found i hi).2
  by_cases hidle : s.phase i = .idle
  · rw [StatsRun.invoke, hidle]
    dsimp only
    split
    · exact h.outside (houtside (Or.inl hidle)) (Or.inr rfl)
    · exact h.outside (houtside (Or.inl hidle)) (Or.inl rfl)
  by_cases hentered : s.phase i = .entered
  · rw [StatsRun.invoke, hentered]
    dsimp only
    split
    · exact h.outside (houtside (Or.inr hentered)) (Or.inr rfl)
    · rename_i st hst
      exact h.find (houtside (Or.inr hentered)) (by rw [hst]; rfl)
  by_cases hmaxDone : s.phase i = .maxDone
  · rw [StatsRun.invoke, hmaxDone]
    exact h.unlock hmaxDone
  by_cases hdone : s.phase i = .done
  · rw [StatsRun.invoke, hdone]
    exact h
  -- the call holds the lock, and its script is registered
  have hi : i ∈ s.period := h.working i hidle hentered hdone
  obtain ⟨st, hst⟩ := Option.isSome_iff_exists.mp (h.registered i hi)
  rw [invoke_found hst fails ⟨hidle, hentered, hmaxDone, hdone⟩]
  have hmem : i ∈ s.ofScript call (call i).script := Finset.mem_filter.mpr ⟨hi, rfl⟩
  refine h.inside hi ?_ ((h.counts _ st hst).round hmem fails ⟨hidle, hentered⟩)
  exact invokeRound_working _ _ _ hidle hentered

theorem Inv.step (h : Inv call s) (turn : StatsTurn ι) : Inv call (s.step call turn) := by
  cases turn with
  | invoke i fails => exact h.invoke i fails
  | pack =>
      rw [StatsRun.step]
      split
      · exact h.pack ‹_›
      · exact h
  | register scriptId =>
      rw [StatsRun.step]
      split
      · exact h.register scriptId
      · exact h
  | setEnabled en => exact ⟨h.found, h.working, h.registered, h.counts⟩

theorem inv_run (call : ι → Invocation) (enabled : Bool) (turns : List (StatsTurn ι)) :
    Inv call ((start enabled).run call turns) :=
  foldl_keeps (fun _ turn h => h.step turn) turns _ (inv_start call enabled)

end StatsRun

end Mawmaw.Server
