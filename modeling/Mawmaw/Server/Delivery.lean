import Mawmaw.Server.Snapshots

/-!
# Delivering the metrics

* `snapshots_reassembled` : a snapshot is shown once all its chunks have been delivered, in any
  order and with any duplication;
* `dashboard_consistent` : whatever is delivered, what is shown is exactly one snapshot of each
  kind.
-/

namespace Mawmaw.Server
open Mawmaw.Lib Mawmaw.Core Mawmaw.Pub

variable {P : Nat}

/-! ## Which receiver an event reaches -/

theorem carries_of_mem {now : UInt64} {schema : Str} {chunks : List (List UInt8)} {ev : Event P}
    (h : ev ∈ metricsEvents P now schema chunks) : ∃ chunk, Carries schema chunk ev := by
  obtain ⟨chunk, -, hsome⟩ := List.mem_filterMap.mp h
  exact ⟨chunk, carries_metricsEvent hsome⟩

theorem publishAll_streams {now : UInt64} {chunks : List (List UInt8)} (evs : List (Event P))
    (h : ∀ ev ∈ evs, ev ∈ metricsEvents P now streamsSchema chunks)
    (ep : TelemetryStdoutEndpoint) :
    (ep.publishAll evs).streams
      = evs.foldl (fun a ev => a.receive (readStreamChunk ev.payload.toList)) ep.streams := by
  induction evs generalizing ep with
  | nil => rfl
  | cons ev evs ih =>
      obtain ⟨chunk, hcarries⟩ := carries_of_mem (h ev (by simp))
      rw [TelemetryStdoutEndpoint.publishAll, List.foldl_cons, publish_stream hcarries,
        List.foldl_cons]
      exact ih (fun ev' hev' => h ev' (by simp [hev'])) _

theorem publishAll_scripts {now : UInt64} {chunks : List (List UInt8)} (evs : List (Event P))
    (h : ∀ ev ∈ evs, ev ∈ metricsEvents P now scriptsSchema chunks)
    (ep : TelemetryStdoutEndpoint) :
    (ep.publishAll evs).scripts
      = evs.foldl (fun a ev => a.receive (readScriptChunk ev.payload.toList)) ep.scripts := by
  induction evs generalizing ep with
  | nil => rfl
  | cons ev evs ih =>
      obtain ⟨chunk, hcarries⟩ := carries_of_mem (h ev (by simp))
      rw [TelemetryStdoutEndpoint.publishAll, List.foldl_cons, publish_script hcarries,
        List.foldl_cons]
      exact ih (fun ev' hev' => h ev' (by simp [hev'])) _

/-! ## One snapshot -/

theorem stream_shown (hP : 76 ≤ P) (hn : P < 36 + 40 * 2 ^ 16) (now : UInt64)
    (ep : TelemetryStdoutEndpoint) (evs : List (Event P)) (s : StreamSnapshot)
    {chunks : List (List UInt8)} (hpack : s.pack P = some chunks) (hc : chunks.length ≤ 255)
    (hpending : ∀ g, ep.pendingStream = some g → g.key ≠ s.timestampNs)
    (hevs : ∀ ev, ev ∈ evs ↔ ev ∈ metricsEvents P now streamsSchema chunks) :
    ∃ g, (ep.publishAll evs).latestStream = some g ∧ ShowsStream s g := by
  have hcount := StreamSnapshot.length_of_pack hpack
  have hcarried := carried_streamEvents hP hn now hpack (by omega)
  have hparts : (streamParts P s).parts ≠ [] := by
    have := StreamSnapshot.chunkCount_pos hP s
    rw [← List.length_pos_iff, streamParts, List.length_map, StreamSnapshot.length_parts]
    exact this
  obtain ⟨g, hg, hshown⟩ := hcarried.shows ep.streams hparts hpending hevs
  refine ⟨g, ?_, showsStream_of_shown hP hshown⟩
  rw [TelemetryStdoutEndpoint.latestStream, publishAll_streams evs fun ev hev => (hevs ev).mp hev]
  exact hg

theorem script_shown (hP : 76 ≤ P) (hn : P < 36 + 40 * 2 ^ 16) (now : UInt64)
    (ep : TelemetryStdoutEndpoint) (evs : List (Event P)) (s : ScriptSnapshot)
    {chunks : List (List UInt8)} (hpack : s.pack P = some chunks) (hc : chunks.length ≤ 255)
    (hpending : ∀ g, ep.pendingScript = some g → g.key ≠ s.timestampNs)
    (hevs : ∀ ev, ev ∈ evs ↔ ev ∈ metricsEvents P now scriptsSchema chunks) :
    ∃ g, (ep.publishAll evs).latestScript = some g ∧ ShowsScript s g := by
  have hcount := ScriptSnapshot.length_of_pack hpack
  have hcarried := carried_scriptEvents hP hn now hpack (by omega)
  have hparts : (scriptParts P s).parts ≠ [] := by
    have := ScriptSnapshot.chunkCount_pos hP (ScriptSnapshot.pack_eq_some.mp hpack).2
    rw [← List.length_pos_iff, scriptParts, List.length_map, ScriptSnapshot.length_parts]
    exact this
  obtain ⟨g, hg, hshown⟩ := hcarried.shows ep.scripts hparts hpending hevs
  refine ⟨g, ?_, showsScript_of_shown hP hshown⟩
  rw [TelemetryStdoutEndpoint.latestScript, publishAll_scripts evs fun ev hev => (hevs ev).mp hev]
  exact hg

theorem map_shownCount {entries : List (Str × UInt64)}
    (h : ∀ e ∈ entries, NulFree e.1 ∧ e.1.length ≤ 31) : entries.map shownCount = entries := by
  refine (List.map_congr_left fun e he => ?_).trans (List.map_id entries)
  obtain ⟨hnul, hlen⟩ := h e he
  rw [shownCount, cutId_eq_self hnul hlen, id]

theorem map_shownStats {entries : List (Str × ScriptStats)}
    (h : ∀ e ∈ entries, NulFree e.1 ∧ e.1.length ≤ 31) :
    entries.map shownStats = entries.map packedStats := by
  refine List.map_congr_left fun e he => ?_
  obtain ⟨hnul, hlen⟩ := h e he
  rw [shownStats, cutId_eq_self hnul hlen, packedStats]

/-- **Reassembly.** Deliver all the chunks of a packed snapshot, in any order and with any
duplication, to an endpoint whose pending group is absent or of another timestamp: the latest group
ends with its timestamp and totals and a permutation of its entries. -/
theorem snapshots_reassembled (hP : 76 ≤ P) (hP' : P ≤ 65535) (now : UInt64)
    (ep : TelemetryStdoutEndpoint) (evs : List (Event P)) :
    (∀ (s : StreamSnapshot) (chunks : List (List UInt8)), s.pack P = some chunks →
      chunks.length ≤ 255 → (∀ e ∈ s.entries, NulFree e.1 ∧ e.1.length ≤ 31) →
      (∀ g, ep.pendingStream = some g → g.key ≠ s.timestampNs) →
      (∀ ev, ev ∈ evs ↔ ev ∈ metricsEvents P now streamsSchema chunks) →
      ∃ g, (ep.publishAll evs).latestStream = some g ∧ g.key = s.timestampNs ∧
        g.info = ⟨s.totalEvents, s.totalEmitted, s.drops⟩ ∧ g.items.Perm s.entries) ∧
    (∀ (s : ScriptSnapshot) (chunks : List (List UInt8)), s.pack P = some chunks →
      chunks.length ≤ 255 → (∀ e ∈ s.entries, NulFree e.1 ∧ e.1.length ≤ 31) →
      (∀ g, ep.pendingScript = some g → g.key ≠ s.timestampNs) →
      (∀ ev, ev ∈ evs ↔ ev ∈ metricsEvents P now scriptsSchema chunks) →
      ∃ g, (ep.publishAll evs).latestScript = some g ∧ g.key = s.timestampNs ∧
        g.items.Perm (s.entries.map packedStats)) := by
  refine ⟨?_, ?_⟩
  · intro s chunks hpack hc hids hpending hevs
    obtain ⟨g, hg, hshows⟩ := stream_shown hP (by omega) now ep evs s hpack hc hpending hevs
    exact ⟨g, hg, hshows.timestampNs, hshows.totals, map_shownCount hids ▸ hshows.entries⟩
  · intro s chunks hpack hc hids hpending hevs
    obtain ⟨g, hg, hshows⟩ := script_shown hP (by omega) now ep evs s hpack hc hpending hevs
    exact ⟨g, hg, hshows.timestampNs, map_shownStats hids ▸ hshows.entries⟩

/-- Two streams, a chunk each in the smallest build. -/
def sampleStreams : StreamSnapshot := ⟨7, 3, 2, 1, [(lit "a", 3), (lit "b", 2)]⟩

def sampleScripts : ScriptSnapshot := ⟨7, [(lit "f", { count := 2, totalLatencyNs := 9 })]⟩

/-- The chunks of both, each twice and the later first. -/
theorem snapshots_reassembled_sample :
    (∃ g, (({ id := lit "t" } : TelemetryStdoutEndpoint).publishAll
        ((streamEvents 76 0 sampleStreams).reverse ++ streamEvents 76 0 sampleStreams)).latestStream
          = some g ∧ g.key = 7 ∧ g.info = ⟨3, 2, 1⟩ ∧ g.items.Perm sampleStreams.entries) ∧
    (∃ g, (({ id := lit "t" } : TelemetryStdoutEndpoint).publishAll
        ((scriptEvents 76 0 sampleScripts).reverse ++ scriptEvents 76 0 sampleScripts)).latestScript
          = some g ∧ g.key = 7 ∧ g.items.Perm (sampleScripts.entries.map packedStats)) :=
  ⟨(snapshots_reassembled (by decide) (by decide) 0 { id := lit "t" }
      ((streamEvents 76 0 sampleStreams).reverse ++ streamEvents 76 0 sampleStreams)).1
      sampleStreams _ rfl (by decide) (by decide +kernel) nofun (fun ev => by
        rw [List.mem_append, List.mem_reverse, or_self]
        rfl),
    (snapshots_reassembled (by decide) (by decide) 0 { id := lit "t" }
      ((scriptEvents 76 0 sampleScripts).reverse ++ scriptEvents 76 0 sampleScripts)).2
      sampleScripts _ rfl (by decide) (by decide +kernel) nofun (fun ev => by
        rw [List.mem_append, List.mem_reverse, or_self]
        rfl)⟩

/-! ## Any deliveries -/

/-- The dashboard is in order: each receiver holds and shows parts of one snapshot only. -/
structure InOrder (P : Nat) (F : Set StreamSnapshot) (G : Set ScriptSnapshot)
    (ep : TelemetryStdoutEndpoint) : Prop where
  streams : Consistent (streamParts P '' F) ep.streams
  scripts : Consistent (scriptParts P '' G) ep.scripts

theorem streamParts_key {F : Set StreamSnapshot}
    (h : ∀ s ∈ F, ∀ s' ∈ F, s.timestampNs = s'.timestampNs → s = s') :
    ∀ S ∈ streamParts P '' F, ∀ S' ∈ streamParts P '' F, S.key = S'.key → S = S' := by
  rintro _ ⟨s, hs, rfl⟩ _ ⟨s', hs', rfl⟩ hkey
  rw [h s hs s' hs' hkey]

theorem scriptParts_key {G : Set ScriptSnapshot}
    (h : ∀ s ∈ G, ∀ s' ∈ G, s.timestampNs = s'.timestampNs → s = s') :
    ∀ S ∈ scriptParts P '' G, ∀ S' ∈ scriptParts P '' G, S.key = S'.key → S = S' := by
  rintro _ ⟨s, hs, rfl⟩ _ ⟨s', hs', rfl⟩ hkey
  rw [h s hs s' hs' hkey]

section Deliveries
variable {F : Set StreamSnapshot} {G : Set ScriptSnapshot}

/-- An event of one of the snapshots. -/
def Delivered (P : Nat) (F : Set StreamSnapshot) (G : Set ScriptSnapshot) (ev : Event P) : Prop :=
  (∃ s ∈ F, ∃ now, ev ∈ streamEvents P now s) ∨ ∃ s ∈ G, ∃ now, ev ∈ scriptEvents P now s

theorem InOrder.publish (hP : 76 ≤ P) (hn : P < 36 + 40 * 2 ^ 16)
    (hF : ∀ s ∈ F, s.chunkCount P ≤ 255) (hG : ∀ s ∈ G, s.chunkCount P ≤ 255)
    (hFkey : ∀ s ∈ F, ∀ s' ∈ F, s.timestampNs = s'.timestampNs → s = s')
    (hGkey : ∀ s ∈ G, ∀ s' ∈ G, s.timestampNs = s'.timestampNs → s = s')
    {ep : TelemetryStdoutEndpoint} (h : InOrder P F G ep) {ev : Event P}
    (hev : Delivered P F G ev) : InOrder P F G (ep.publish ev) := by
  rcases hev with ⟨s, hs, now, hmem⟩ | ⟨s, hs, now, hmem⟩
  · cases hpack : s.pack P with
    | none =>
        rw [streamEvents, hpack] at hmem
        cases hmem
    | some chunks =>
        rw [streamEvents, hpack] at hmem
        have hcarried := carried_streamEvents hP hn now hpack (hF s hs)
        obtain ⟨chunk, hcarries⟩ := carries_of_mem hmem
        rw [publish_stream hcarries]
        exact ⟨hcarried.consistent (streamParts_key hFkey) ⟨s, hs, rfl⟩ h.streams hmem, h.scripts⟩
  · cases hpack : s.pack P with
    | none =>
        rw [scriptEvents, hpack] at hmem
        cases hmem
    | some chunks =>
        rw [scriptEvents, hpack] at hmem
        have hcarried := carried_scriptEvents hP hn now hpack (hG s hs)
        obtain ⟨chunk, hcarries⟩ := carries_of_mem hmem
        rw [publish_script hcarries]
        exact ⟨h.streams, hcarried.consistent (scriptParts_key hGkey) ⟨s, hs, rfl⟩ h.scripts hmem⟩

theorem InOrder.publishAll (hP : 76 ≤ P) (hn : P < 36 + 40 * 2 ^ 16)
    (hF : ∀ s ∈ F, s.chunkCount P ≤ 255) (hG : ∀ s ∈ G, s.chunkCount P ≤ 255)
    (hFkey : ∀ s ∈ F, ∀ s' ∈ F, s.timestampNs = s'.timestampNs → s = s')
    (hGkey : ∀ s ∈ G, ∀ s' ∈ G, s.timestampNs = s'.timestampNs → s = s')
    (evs : List (Event P)) (hevs : ∀ ev ∈ evs, Delivered P F G ev)
    {ep : TelemetryStdoutEndpoint} (h : InOrder P F G ep) : InOrder P F G (ep.publishAll evs) := by
  induction evs generalizing ep with
  | nil => exact h
  | cons ev evs ih =>
      exact ih (fun ev' hev' => hevs ev' (by simp [hev']))
        (h.publish hP hn hF hG hFkey hGkey (hevs ev (by simp)))

/-- **No mixtures.** Whatever chunks of snapshots with distinct timestamps are delivered to a new
endpoint, what it shows is exactly one of them, identifiers cut to their fields. -/
theorem dashboard_consistent (hP : 76 ≤ P) (hn : P < 36 + 40 * 2 ^ 16)
    (hF : ∀ s ∈ F, s.chunkCount P ≤ 255) (hG : ∀ s ∈ G, s.chunkCount P ≤ 255)
    (hFkey : ∀ s ∈ F, ∀ s' ∈ F, s.timestampNs = s'.timestampNs → s = s')
    (hGkey : ∀ s ∈ G, ∀ s' ∈ G, s.timestampNs = s'.timestampNs → s = s')
    (id : Str) (evs : List (Event P)) (hevs : ∀ ev ∈ evs, Delivered P F G ev) :
    (∀ g, (({ id } : TelemetryStdoutEndpoint).publishAll evs).latestStream = some g →
      ∃! s, s ∈ F ∧ ShowsStream s g) ∧
    (∀ g, (({ id } : TelemetryStdoutEndpoint).publishAll evs).latestScript = some g →
      ∃! s, s ∈ G ∧ ShowsScript s g) := by
  have hinit : InOrder P F G { id } := ⟨consistent_init _, consistent_init _⟩
  have horder := hinit.publishAll hP hn hF hG hFkey hGkey evs hevs
  refine ⟨?_, ?_⟩
  · intro g hg
    obtain ⟨_, ⟨s, hs, rfl⟩, hshown⟩ := horder.streams.latest g hg
    have hshows := showsStream_of_shown hP hshown
    refine ⟨s, ⟨hs, hshows⟩, fun s' hs' => ?_⟩
    exact hFkey s' hs'.1 s hs (hs'.2.timestampNs.symm.trans hshows.timestampNs)
  · intro g hg
    obtain ⟨_, ⟨s, hs, rfl⟩, hshown⟩ := horder.scripts.latest g hg
    have hshows := showsScript_of_shown hP hshown
    refine ⟨s, ⟨hs, hshows⟩, fun s' hs' => ?_⟩
    exact hGkey s' hs'.1 s hs (hs'.2.timestampNs.symm.trans hshows.timestampNs)

end Deliveries

theorem dashboard_consistent_sample :
    (∀ g, (({ id := lit "t" } : TelemetryStdoutEndpoint).publishAll
        ((streamEvents 76 0 sampleStreams).take 1 ++ scriptEvents 76 0 sampleScripts)).latestStream
          = some g → ∃! s, s ∈ ({sampleStreams} : Set StreamSnapshot) ∧ ShowsStream s g) ∧
    (∀ g, (({ id := lit "t" } : TelemetryStdoutEndpoint).publishAll
        ((streamEvents 76 0 sampleStreams).take 1 ++ scriptEvents 76 0 sampleScripts)).latestScript
          = some g → ∃! s, s ∈ ({sampleScripts} : Set ScriptSnapshot) ∧ ShowsScript s g) :=
  dashboard_consistent (by decide) (by decide) (by rintro s rfl; decide) (by rintro s rfl; decide)
    (by rintro s rfl s' rfl _; rfl) (by rintro s rfl s' rfl _; rfl) (lit "t")
    ((streamEvents 76 0 sampleStreams).take 1 ++ scriptEvents 76 0 sampleScripts)
    (fun ev hev => (List.mem_append.mp hev).imp
      (fun h => ⟨sampleStreams, rfl, 0, List.mem_of_mem_take h⟩)
      fun h => ⟨sampleScripts, rfl, 0, h⟩)

/-- A script whose identifier has 32 characters. -/
def longId : ScriptSnapshot := ⟨7, [(lit "abcdefghijklmnopqrstuvwxyz012345", { count := 1 })]⟩

/-- More entries in one chunk than two bytes count, in a build with room for them. -/
def manyEntries (n : Nat) : StreamSnapshot := ⟨7, 0, 0, 0, List.replicate n (lit "a", 1)⟩

/-- A single chunk whose length wraps to zero completes its snapshot without an entry. -/
theorem manyEntries_shown {n : Nat} (hpos : 0 < n) (hwrap : n % 2 ^ 16 = 0) :
    ∃ g, (({ id := lit "t" } : TelemetryStdoutEndpoint).publishAll
      (streamEvents (36 + 40 * n) 0 (manyEntries n))).latestStream = some g ∧ g.items = [] := by
  have hlen : (manyEntries n).entries.length = n := List.length_replicate
  have hmax : StreamSnapshot.maxEntries (36 + 40 * n) = n := by
    rw [StreamSnapshot.maxEntries_eq (by omega)]
    omega
  have hcount : (manyEntries n).chunkCount (36 + 40 * n) = 1 := by
    rw [StreamSnapshot.chunkCount, hlen, hmax, if_neg (by omega), ceilDiv]
    exact Nat.div_eq_of_lt_le (by omega) (by omega)
  have hparts : (manyEntries n).parts (36 + 40 * n) = [(manyEntries n).entries] := by
    rw [StreamSnapshot.parts, hcount, hmax, splitLoop, splitLoop, hlen, Nat.sub_zero, Nat.min_self,
      List.drop_zero, List.take_of_length_le (le_of_eq hlen)]
  have hpack : (manyEntries n).pack (36 + 40 * n)
      = some [(manyEntries n).chunkBytes 1 0 (manyEntries n).entries] := by
    refine StreamSnapshot.pack_eq_some.mpr ⟨by rw [hparts, hcount]; rfl, ?_⟩
    have hne : (manyEntries n).entries ≠ [] := List.length_pos_iff.mp (by omega)
    simp [hne]
  obtain ⟨ev, hev⟩ := exists_metricsEvent (P := 36 + 40 * n) 0 streamsSchema
    ((manyEntries n).chunkBytes 1 0 (manyEntries n).entries) (by rw [length_streamChunk, hlen])
  have hcarries := carries_metricsEvent hev
  obtain ⟨post, hpost⟩ := hcarries.payload
  have hevents : streamEvents (36 + 40 * n) 0 (manyEntries n) = [ev] := by
    rw [streamEvents, hpack]
    simp [metricsEvents, hev]
  have hread : readStreamChunk ev.payload.toList = ⟨7, ⟨0, 0, 0⟩, 0, 1, []⟩ := by
    rw [hpost, readStreamChunk_chunkBytes, hlen, hwrap]
    rfl
  rw [hevents, TelemetryStdoutEndpoint.publishAll, List.foldl_cons, List.foldl_nil,
    publish_stream hcarries, TelemetryStdoutEndpoint.handleStreamChunk, hread]
  exact ⟨_, rfl, rfl⟩

/-- What is shown need not be the snapshot: a field cuts the identifier, or the length of a chunk
wraps around. -/
theorem dashboard_not_exact :
    (∃ g, (({ id := lit "t" } : TelemetryStdoutEndpoint).publishAll
        (scriptEvents 76 0 longId)).latestScript = some g ∧
      ¬ g.items.Perm (longId.entries.map packedStats)) ∧
    (∃ g, (({ id := lit "t" } : TelemetryStdoutEndpoint).publishAll
        (streamEvents (36 + 40 * 65536) 0 (manyEntries 65536))).latestStream = some g ∧
      ¬ g.items.Perm (manyEntries 65536).entries) := by
  refine ⟨?_, ?_⟩
  · refine ⟨⟨7, (), 1, [true], [⟨lit "abcdefghijklmnopqrstuvwxyz01234", 1, 0, 0, 0⟩]⟩, ?_, ?_⟩
    · decide
    · decide
  · obtain ⟨g, hg, hitems⟩ := manyEntries_shown (n := 65536) (by decide) (by decide)
    refine ⟨g, hg, fun hperm => ?_⟩
    have hlen := hperm.length_eq
    rw [hitems, manyEntries, List.length_replicate] at hlen
    cases hlen

end Mawmaw.Server
