import Mawmaw.Config.Routes
import Mawmaw.Publisher.FileEndpoint
import Mawmaw.Server.Accounting

/-!
# What the log file tells of a run

* `newline_not_mem_stream` : a stream routed by a configuration text fits into a line;
* `logged` : the calls of an endpoint, oldest first; `stream_of_routed`;
* `file_log_reads` : the log of every run, and as much of it as has got to the disk.
-/

namespace Mawmaw.Conf
open Mawmaw.Lib

/-! ## Routed streams -/

theorem not_mem_of_mem_splitOn {sep : UInt8} {s : Str} : ∀ l ∈ s.splitOn sep, sep ∉ l := by
  induction s with
  | nil =>
      intro l hl
      rw [List.splitOn_nil, List.mem_singleton] at hl
      rw [hl]
      exact List.not_mem_nil
  | cons b s ih =>
      rw [List.splitOn_eq_splitOnP, List.splitOnP_cons_eq_if_modifyHead]
      rw [List.splitOn_eq_splitOnP] at ih
      split
      · exact List.forall_mem_cons.mpr ⟨List.not_mem_nil, ih⟩
      · rename_i hb
        obtain ⟨l, ls, hls⟩ := List.exists_cons_of_ne_nil (List.splitOnP_ne_nil (· == sep) s)
        rw [hls] at ih ⊢
        obtain ⟨hl, hrest⟩ := List.forall_mem_cons.mp ih
        refine List.forall_mem_cons.mpr ⟨?_, hrest⟩
        rw [List.mem_cons, not_or]
        exact ⟨fun heq => hb (by simp [heq]), hl⟩

theorem mem_of_mem_trim {b : UInt8} {s : Str} (h : b ∈ trim s) : b ∈ s :=
  (List.dropWhile_suffix isBlank).subset ((List.rdropWhile_prefix isBlank _).subset h)

theorem mem_of_mem_key {raw key val : Str} (h : readLine raw = .entry key val) {b : UInt8}
    (hb : b ∈ key) : b ∈ raw := by
  unfold readLine at h
  simp only at h
  split at h
  · cases h
  · split at h
    · cases h
    · split at h
      · obtain ⟨rfl, -⟩ := Line.entry.inj h
        exact mem_of_mem_trim ((List.takeWhile_prefix _).subset (mem_of_mem_trim hb))
      · cases h

theorem newline_not_mem_key {lines : List Str} (h : ∀ raw ∈ lines, newline ∉ raw)
    (inRoutes : Bool) : ∀ kv ∈ routeLines inRoutes lines, newline ∉ kv.1 := by
  induction lines generalizing inRoutes with
  | nil => exact List.forall_mem_nil _
  | cons raw lines ih =>
      obtain ⟨hraw, hlines⟩ := List.forall_mem_cons.mp h
      intro kv hkv
      cases hread : readLine raw with
      | skipped | noEquals _ =>
          simp only [routeLines, hread] at hkv
          exact ih hlines inRoutes kv hkv
      | header type =>
          simp only [routeLines, hread] at hkv
          exact ih hlines (isRoutes type) kv hkv
      | entry key val =>
          simp only [routeLines, hread] at hkv
          rcases List.mem_append.mp hkv with hkv | hkv
          · cases inRoutes with
            | false => cases hkv
            | true =>
                rw [List.mem_singleton.mp hkv]
                exact fun hmem => hraw (mem_of_mem_key hread hmem)
          · exact ih hlines inRoutes kv hkv

/-- The name of a stream with routes was read from a line of the text. -/
theorem newline_not_mem_stream {path text : Str} {cfg : Config}
    (h : parse path (some text) = .ok cfg) {s : Str}
    (hs : UMap.getD (parseRoutes cfg) s [] ≠ []) : newline ∉ s := by
  have htargets : declaredTargets text s ≠ [] := by
    intro hnil
    rw [UMap.getD, lookup_parseRoutes, parse_routeTargets h, hnil, ite_self] at hs
    exact hs rfl
  obtain ⟨target, htarget⟩ := List.exists_mem_of_ne_nil _ htargets
  obtain ⟨kv, hkv, -⟩ := List.mem_flatMap.mp htarget
  obtain ⟨hline, hname⟩ := List.mem_filter.mp hkv
  rw [← of_decide_eq_true hname]
  exact newline_not_mem_key not_mem_of_mem_splitOn false kv hline

end Mawmaw.Conf

namespace Mawmaw.Server
open Mawmaw.Lib Mawmaw.Conf Mawmaw.Core Mawmaw.Pub

variable {P : Nat}

/-! ## The log of a run -/

/-- The calls of an endpoint, oldest first. -/
def logged (id : Str) (r : StreamRouter P) : List (Event P) :=
  r.delivered.filterMap fun d => if d.1 = id then some d.2 else none

/-- What is routed to a target has a route. -/
theorem stream_of_routed {scripts : List (ScriptThread P)} {routes : UMap Str (List Str)} {id : Str}
    {s : Pipeline P} {turns : List Turn} {ev : Event P}
    (h : ev ∈ routed scripts routes id s turns) : UMap.getD routes ev.stream [] ≠ [] := by
  obtain ⟨s', t, hmem⟩ := mem_gained s turns h
  rw [routing] at hmem
  cases hhead : (s'.actions t.thread).head? with
  | none =>
      rw [hhead] at hmem
      exact absurd hmem (Multiset.notMem_zero ev)
  | some a =>
      rw [hhead] at hmem
      cases a with
      | route e =>
          obtain ⟨hcount, rfl⟩ := Multiset.mem_replicate.mp hmem
          intro hnil
          rw [hnil] at hcount
          exact hcount rfl
      | emit _ _ | target _ _ | dispatch _ _ => exact absurd hmem (Multiset.notMem_zero ev)

/-- **The log of a run.** A file endpoint, alone with its file, appends to the log `older` of
earlier runs. In every state of every run the file reads back to the older entries and one for each
event the endpoint was given, in order; with what is on its way these are the events routed to it.
What has got to the disk of the file tells a first part of them. -/
theorem file_log_reads {env : Environment P} {path text : Str} {cfg : Config} {p : PipelineState P}
    (hparse : parse path (some text) = .ok cfg) (h : startPipeline env cfg = .ok p)
    (turns : List Turn) {id : Str} (hlook : p.router.handlers.lookup id = none) {pub : Publisher P}
    (hpub : p.router.publisher = some pub) {logPath : Str}
    (hep : pub.endpoints.lookup id = some (.file id logPath)) {older : List (Event P)}
    (holder : ∀ ev ∈ older, newline ∉ ev.stream) :
    let ep : FileEndpoint := { id, out := (({ id } : FileEndpoint).publishAll older).out }
    let file := (ep.publishAll (logged id (p.after turns).router)).out
    let entries := (logged id (p.after turns).router).map LogEntry.of
    readLog file = (older.map LogEntry.of ++ entries, []) ∧
      (entries : Multiset LogEntry) + ((p.after turns).inFlight id).map LogEntry.of
        = (routed p.scriptData (parseRoutes cfg) id (start p.router p.plugins) turns).map
            LogEntry.of ∧
      ∀ t, t <+: file → (readLog t).1 <+: older.map LogEntry.of ++ entries := by
  intro ep file entries
  have hhas : (wiring p.router).hasEndpoint id = true := by
    have hwiring : (wiring p.router).hasEndpoint id
        = (p.router.publisher.map fun pub => pub.hasEndpoint id).getD false := rfl
    rw [hwiring, hpub, Option.map_some, Option.getD_some, Publisher.hasEndpoint, hep]
    rfl
  have hbook : (logged id (p.after turns).router : Multiset (Event P)) + (p.after turns).inFlight id
      = routed p.scriptData (parseRoutes cfg) id (start p.router p.plugins) turns :=
    routed_endpoint h turns hlook hhas
  have hlogged : ∀ ev ∈ logged id (p.after turns).router, newline ∉ ev.stream := by
    intro ev hev
    have hrouted : ev ∈ routed p.scriptData (parseRoutes cfg) id (start p.router p.plugins)
        turns := by
      rw [← hbook]
      exact Multiset.mem_add.mpr (.inl hev)
    exact newline_not_mem_stream hparse (stream_of_routed hrouted)
  have hfile : file = (({ id } : FileEndpoint).publishAll
      (older ++ logged id (p.after turns).router)).out := by
    have hout : ep.out = (({ id } : FileEndpoint).publishAll older).out := rfl
    show (ep.publishAll _).out = _
    rw [FileEndpoint.publishAll_out, hout, FileEndpoint.publishAll_out, FileEndpoint.publishAll_out,
      List.flatMap_append, List.append_assoc]
  have hread : readLog file = (older.map LogEntry.of ++ entries, []) := by
    rw [hfile, readLog_publishAll (List.forall_mem_append.mpr ⟨holder, hlogged⟩), List.map_append]
  refine ⟨hread, ?_, fun t ht => ?_⟩
  · rw [← hbook, Multiset.map_add, Multiset.map_coe]
  · have hpart := readLog_part ht
    rw [hread] at hpart
    exact hpart

/-- An ingestor whose stream is logged. -/
def loggedText : Str :=
  [lit "[publisher]", lit "id = log", lit "type = file", lit "path = l", lit "[routes]",
    lit "s = log", lit "[ingestor]", lit "id = i", lit "plugin = i.so", lit "as = s"].flatMap
      (· ++ [newline])

def loggedConfig : Config :=
  match parse (lit "c") (some loggedText) with
  | .ok cfg => cfg
  | .error _ => ⟨[]⟩

def loggedState : PipelineState 1 :=
  match startPipeline (returningEnv (lit "a")) loggedConfig with
  | .ok p => p
  | .error _ => { router := {} }

/-- The event is ingested, routed and logged. -/
def loggedTurns : List Turn := turns 3 (.ingestor 0)

theorem file_log_reads_one :
    let ep : FileEndpoint :=
      { id := lit "log"
        out := (({ id := lit "log" } : FileEndpoint).publishAll [({} : Event 1)]).out }
    let file := (ep.publishAll (logged (lit "log") (loggedState.after loggedTurns).router)).out
    let entries := (logged (lit "log") (loggedState.after loggedTurns).router).map LogEntry.of
    readLog file = ([({} : Event 1)].map LogEntry.of ++ entries, []) ∧
      (entries : Multiset LogEntry)
          + ((loggedState.after loggedTurns).inFlight (lit "log")).map LogEntry.of
        = (routed loggedState.scriptData (parseRoutes loggedConfig) (lit "log")
            (start loggedState.router loggedState.plugins) loggedTurns).map LogEntry.of ∧
      ∀ t, t <+: file → (readLog t).1 <+: [({} : Event 1)].map LogEntry.of ++ entries :=
  file_log_reads (show parse (lit "c") (some loggedText) = .ok loggedConfig from rfl)
    (show startPipeline (returningEnv (lit "a")) loggedConfig = .ok loggedState from rfl)
    loggedTurns rfl rfl (show _ = some (Endpoint.file (lit "log") (lit "l")) from by decide +kernel)
    (List.forall_mem_singleton.mpr (by decide))

end Mawmaw.Server
