import Mawmaw.Lib.Schedule
import Mawmaw.Config.Parse
import Mawmaw.Server.Windows

/-!
# Reloading the configuration

The editor, the reload monitor and `main`, step by step. What the monitor does about plugin files is
left out.

* `ConfigFile`, `getFileMtime` : the file, and its modification time in whole seconds;
* `MainPhase`, `Watched`, `step` : the phases of `main` and one step of one of the three;
* `UpToDate` : what the monitor promises once it has polled;
* `Noticed` : a poll that sees by the time stamp that the text is not the one last parsed;
* `no_edit_lost` : every run whose polls notice is up to date in every state.
-/

namespace Mawmaw.Server
open Mawmaw.Lib Mawmaw.Conf Mawmaw.Core Mawmaw.Pub

variable {P : Nat}

structure ConfigFile where
  content : Str
  mtimeNs : Nat
  deriving DecidableEq

def getFileMtime (f : ConfigFile) : Nat := f.mtimeNs / 1000000000

/-- Where `main` is; a start or a running pipeline comes with the text that was parsed for it. -/
inductive MainPhase (P : Nat)
  | booting
  | starting (first : Bool) (text : Str) (cfg : Config)
  | running (text : Str) (p : PipelineState P)
  /-- The flag was cleared and the pipeline stopped. -/
  | reloading
  | exited

namespace MainPhase

/-- The text parsed last, unless it is to be parsed again. -/
def text : MainPhase P → Option Str
  | .booting => none
  | .starting _ text _ => some text
  | .running text _ => some text
  | .reloading => none
  | .exited => none

/-- The monitor is created after the first start. -/
def hasMonitor : MainPhase P → Bool
  | .booting => false
  | .starting first _ _ => !first
  | .running _ _ => true
  | .reloading => true
  | .exited => true

end MainPhase

/-- `configMtime` is what the monitor compares with, once it has taken its baseline; `polled` says
whether it has polled since the last edit. -/
structure Watched (P : Nat) where
  file : ConfigFile
  configMtime : Option Nat := none
  reloadRequested : Bool := false
  main : MainPhase P := .booting
  polled : Bool := false

inductive WatchStep
  | edit (file : ConfigFile)
  | baseline
  | poll
  | parse
  | start
  | reload
  deriving DecidableEq

namespace Watched

/-- `main` parses the file as it is; an error ends the program. -/
def parsed (path : Str) (s : Watched P) (first : Bool) : Watched P :=
  match parse path (some s.file.content) with
  | .error _ => { s with main := .exited }
  | .ok cfg => { s with main := .starting first s.file.content cfg }

/-- One step; a step that cannot be taken changes nothing. -/
def step (env : Environment P) (path : Str) (s : Watched P) : WatchStep → Watched P
  | .edit file => { s with file, polled := false }
  | .baseline =>
    if s.main.hasMonitor && s.configMtime.isNone then
      { s with configMtime := some (getFileMtime s.file) }
    else s
  | .poll =>
    match s.configMtime with
    | none => s
    | some configMtime =>
      if getFileMtime s.file ≠ configMtime then
        { s with
          reloadRequested := true
          configMtime := some (getFileMtime s.file)
          polled := true }
      else { s with polled := true }
  | .parse =>
    match s.main with
    | .booting => s.parsed path true
    | .reloading => s.parsed path false
    | .starting _ _ _ => s
    | .running _ _ => s
    | .exited => s
  | .start =>
    match s.main with
    | .starting _ text cfg =>
      match startPipeline env cfg with
      | .error _ => { s with main := .exited }
      | .ok p => { s with main := .running text p }
    | .booting => s
    | .running _ _ => s
    | .reloading => s
    | .exited => s
  | .reload =>
    match s.main with
    | .running _ _ =>
      if s.reloadRequested then { s with reloadRequested := false, main := .reloading } else s
    | .booting => s
    | .starting _ _ _ => s
    | .reloading => s
    | .exited => s

/-- The pipeline was built from this text. -/
def BuiltFrom (env : Environment P) (path text : Str) (p : PipelineState P) : Prop :=
  ∃ cfg, parse path (some text) = .ok cfg ∧ startPipeline env cfg = .ok p

/-- Once the monitor has polled, a pipeline that runs with no reload requested was built from the
file's current content. -/
def UpToDate (env : Environment P) (path : Str) (s : Watched P) : Prop :=
  s.polled = true → s.reloadRequested = false → ∀ text p, s.main = .running text p →
    text = s.file.content ∧ BuiltFrom env path s.file.content p

/-- The monitor can tell by the time stamp that the file is not what was parsed last, when nothing
else will make `main` parse it. -/
def Noticed (s : Watched P) : WatchStep → Prop
  | .poll => ∀ text ∈ s.main.text, ∀ configMtime ∈ s.configMtime, text ≠ s.file.content →
      s.reloadRequested = false → getFileMtime s.file ≠ configMtime
  | .edit _ => True
  | .baseline => True
  | .parse => True
  | .start => True
  | .reload => True

instance (s : Watched P) : ∀ t, Decidable (Noticed s t)
  | .poll => inferInstanceAs (Decidable (∀ text ∈ s.main.text, ∀ configMtime ∈ s.configMtime,
      text ≠ s.file.content → s.reloadRequested = false → getFileMtime s.file ≠ configMtime))
  | .edit _ => isTrue trivial
  | .baseline => isTrue trivial
  | .parse => isTrue trivial
  | .start => isTrue trivial
  | .reload => isTrue trivial

/-- What the phases say about the texts. -/
structure Inv (env : Environment P) (path : Str) (s : Watched P) : Prop where
  starting : ∀ first text cfg, s.main = .starting first text cfg →
    parse path (some text) = .ok cfg
  running : ∀ text p, s.main = .running text p → BuiltFrom env path text p
  current : s.polled = true → s.reloadRequested = false → ∀ text, s.main.text = some text →
    text = s.file.content

theorem Inv.upToDate {env : Environment P} {path : Str} {s : Watched P} (h : Inv env path s) :
    UpToDate env path s := by
  intro hpolled hflag text p hmain
  have hcur : text = s.file.content := h.current hpolled hflag text (by rw [hmain]; rfl)
  refine ⟨hcur, ?_⟩
  rw [← hcur]
  exact h.running text p hmain

section Steps
variable {env : Environment P} {path : Str} {s : Watched P}

theorem Inv.poll (h : Inv env path s) (hnoticed : Noticed s .poll) :
    Inv env path (s.step env path .poll) := by
  simp only [Watched.step]
  split
  · exact h
  · rename_i configMtime hmtime
    split
    · exact ⟨h.starting, h.running, nofun⟩
    · rename_i hsame
      refine ⟨h.starting, h.running, fun _ hflag text htext => ?_⟩
      by_contra hne
      exact hsame (hnoticed text htext configMtime hmtime hne hflag)

theorem inv_parsed (env : Environment P) (path : Str) (s : Watched P) (first : Bool) :
    Inv env path (s.parsed path first) := by
  unfold Watched.parsed
  split
  · exact ⟨nofun, nofun, nofun⟩
  · rename_i cfg hcfg
    refine ⟨fun _ _ _ hmain => ?_, nofun, fun _ _ _ htext => ?_⟩
    · obtain ⟨-, rfl, rfl⟩ := MainPhase.starting.inj hmain
      exact hcfg
    · exact (Option.some.inj htext).symm

theorem Inv.start (h : Inv env path s) : Inv env path (s.step env path .start) := by
  simp only [Watched.step]
  split
  · rename_i first text cfg hmain
    split
    · exact ⟨nofun, nofun, nofun⟩
    · rename_i p hp
      refine ⟨nofun, fun _ _ hrun => ?_, fun hpolled hflag _ htext => ?_⟩
      · obtain ⟨rfl, rfl⟩ := MainPhase.running.inj hrun
        exact ⟨cfg, h.starting first text cfg hmain, hp⟩
      · apply h.current hpolled hflag
        rw [hmain]
        exact htext
  · exact h
  · exact h
  · exact h
  · exact h

theorem Inv.reload (h : Inv env path s) : Inv env path (s.step env path .reload) := by
  simp only [Watched.step]
  split
  · split
    · exact ⟨nofun, nofun, nofun⟩
    · exact h
  · exact h
  · exact h
  · exact h
  · exact h

theorem Inv.step (h : Inv env path s) (t : WatchStep) (hnoticed : Noticed s t) :
    Inv env path (s.step env path t) := by
  cases t with
  | edit file => exact ⟨h.starting, h.running, nofun⟩
  | baseline =>
      simp only [Watched.step]
      split
      · exact ⟨h.starting, h.running, h.current⟩
      · exact h
  | poll => exact h.poll hnoticed
  | parse =>
      simp only [Watched.step]
      split
      · exact inv_parsed env path s true
      · exact inv_parsed env path s false
      · exact h
      · exact h
      · exact h
  | start => exact h.start
  | reload => exact h.reload

end Steps

/-- **No edit is lost** in a run whose polls notice: every state is up to date. A poll of a running
pipeline that does not notice leads to a state that is not. -/
theorem no_edit_lost (env : Environment P) (path : Str) (file : ConfigFile)
    (steps : List WatchStep) :
    (Along (Watched.step env path) Noticed { file } steps →
      ∀ pre, pre <+: steps → UpToDate env path (pre.foldl (Watched.step env path) { file })) ∧
    ∀ (s : Watched P) (text : Str) (p : PipelineState P), s.main = .running text p →
      ¬ Noticed s .poll → ¬ UpToDate env path (s.step env path .poll) := by
  constructor
  · rintro hnoticed pre ⟨post, rfl⟩
    have hinit : Inv env path ({ file } : Watched P) := ⟨nofun, nofun, nofun⟩
    have hkeep : ∀ s t, Inv env path s → Noticed s t → Inv env path (Watched.step env path s t) :=
      fun _ t h hn => h.step t hn
    exact (Along.keeps hkeep hinit (Along.append.mp hnoticed).1).upToDate
  · intro s text p hmain hblind hup
    simp only [Noticed, Classical.not_forall, not_not] at hblind
    obtain ⟨text', htext, configMtime, hmtime, hne, hflag, hsame⟩ := hblind
    rw [hmain] at htext
    obtain rfl := Option.mem_some_iff.mp htext
    rw [Option.mem_def] at hmtime
    have hstep : s.step env path .poll = { s with polled := true } := by
      simp only [Watched.step, hmtime, hsame, ne_eq, not_true_eq_false, if_false]
    rw [hstep] at hup
    exact hne (hup rfl hflag text p hmain).1

/-- A configuration that starts, for each name its ingestor may give. -/
def ingestorText (name : Str) : Str :=
  lit "[ingestor]" ++ [newline] ++ lit "id = i" ++ [newline] ++ lit "plugin = i.so" ++ [newline]
    ++ lit "as = " ++ name

def firstFile : ConfigFile := ⟨ingestorText (lit "a"), 1000000000⟩

/-- An edit in another second, which is polled and loaded. -/
def noticedSteps : List WatchStep :=
  [.parse, .start, .baseline, .edit ⟨ingestorText (lit "b"), 5100000000⟩, .poll, .reload, .parse,
    .start, .poll]

theorem no_edit_lost_sample :
    UpToDate sampleEnv [] (noticedSteps.foldl (Watched.step sampleEnv []) { file := firstFile }) :=
  (no_edit_lost sampleEnv [] firstFile noticedSteps).1 (by decide +kernel) noticedSteps
    (List.prefix_refl _)

/-- An edit between the first parse and the baseline. -/
def earlyEdit : List WatchStep :=
  [.parse, .edit ⟨ingestorText (lit "b"), 5100000000⟩, .start, .baseline, .poll]

/-- A second edit within the second of the first. -/
def secondEdit : List WatchStep :=
  noticedSteps ++ [.edit ⟨ingestorText (lit "c"), 5400000000⟩, .poll]

theorem edits_lost :
    ¬ UpToDate sampleEnv [] (earlyEdit.foldl (Watched.step sampleEnv []) { file := firstFile }) ∧
    ¬ UpToDate sampleEnv []
      (secondEdit.foldl (Watched.step sampleEnv []) { file := firstFile }) := by
  constructor
  · intro h
    exact absurd (h (by decide +kernel) (by decide +kernel) _ _ rfl).1 (by decide +kernel)
  · intro h
    exact absurd (h (by decide +kernel) (by decide +kernel) _ _ rfl).1 (by decide +kernel)

end Watched

end Mawmaw.Server
