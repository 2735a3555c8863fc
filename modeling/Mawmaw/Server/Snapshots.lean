import Mawmaw.Publisher.Dashboard
import Mawmaw.Server.Metrics

/-!
# Metrics from the counters to the dashboard

* `cutId` : what a 32-byte field keeps of an identifier;
* `readStreamChunk_chunkBytes`, `readScriptChunk_chunkBytes` : the dashboard reads the chunks that
  were packed;
* `Carried` : events that carry the chunks of a snapshot; `Carried.shows`, `Carried.consistent` :
  what they do to a receiver;
* `carried_streamEvents`, `carried_scriptEvents` : the events of the metrics thread do.
-/

namespace Mawmaw.Server
open Mawmaw.Lib Mawmaw.Core Mawmaw.Pub

variable {P : Nat}

/-! ## Identifiers and words -/

/-- The first 31 bytes of an identifier, up to its first NUL. -/
def cutId (id : Str) : Str := (cstr id).take 31

theorem cutId_eq_self {id : Str} (h : NulFree id) (hlen : id.length ≤ 31) : cutId id = id := by
  rw [cutId, cstr_eq_self h, List.take_of_length_le hlen]

@[simp] theorem length_idField (id : Str) : (idField id).length = 32 := Vector.length_toList

theorem cstr_idField (id : Str) : cstr (idField id ++ [0]) = cutId id := by
  have hlen : ((cstr id).take 31).length ≤ 31 := List.length_take_le _ _
  obtain ⟨k, hk⟩ : ∃ k, 32 - ((cstr id).take 31).length = k + 1 :=
    ⟨31 - ((cstr id).take 31).length, by omega⟩
  have hfield : idField id = (cstr id).take 31 ++ 0 :: List.replicate k 0 := by
    rw [← List.replicate_succ, ← hk]
    exact toList_strncpy_zero id 31 (by decide)
  rw [hfield, List.append_assoc, List.cons_append]
  exact cstr_append_zero ((cstr_nulFree id).take 31) _

theorem readId_field (pre block post : List UInt8) (off : Nat) (a : List UInt8) (id : Str)
    (h : a ++ idField id <+: block) (ha : a.length = off) :
    readId (pre ++ (block ++ post)) (pre.length + off) = cutId id := by
  rw [readId, slice_field pre block post a (idField id) h ha (length_idField id), cstr_idField]

theorem readU64_field (pre block post : List UInt8) (off : Nat) (a : List UInt8) (v : UInt64)
    (h : a ++ le64 v <+: block) (ha : a.length = off) :
    readU64 (pre ++ (block ++ post)) (pre.length + off) = v := by
  rw [readU64, slice_field pre block post a (le64 v) h ha (length_le64 v), orIn_le64]

theorem readU16_field (pre block post : List UInt8) (off : Nat) (a : List UInt8) (n : Nat)
    (h : a ++ le16 (UInt16.ofNat n) <+: block) (ha : a.length = off) :
    (readU16 (pre ++ (block ++ post)) (pre.length + off)).toNat = n % 2 ^ 16 := by
  rw [readU16, slice_field pre block post a _ h ha (length_le16 _), ofLE16_le16,
    UInt16.toNat_ofNat']

/-! ## Entries -/

/-- A stream entry as it is shown. -/
def shownCount (e : Str × UInt64) : Str × UInt64 := (cutId e.1, e.2)

/-- A script entry as it is packed. -/
def packedStats (e : Str × ScriptStats) : ScriptEntry where
  id := e.1
  count := e.2.count
  avg := ScriptSnapshot.avgLatencyNs e.2
  min := ScriptSnapshot.minLatencyNs e.2
  max := e.2.maxLatencyNs

/-- A script entry as it is shown. -/
def shownStats (e : Str × ScriptStats) : ScriptEntry := { packedStats e with id := cutId e.1 }

theorem length_streamEntry (e : Str × UInt64) : (StreamSnapshot.entryBytes e).length = 40 := by
  simp [StreamSnapshot.entryBytes]

theorem length_scriptEntry (e : Str × ScriptStats) : (ScriptSnapshot.entryBytes e).length = 64 := by
  simp [ScriptSnapshot.entryBytes]

theorem readStreamEntry_entryBytes (pre post : List UInt8) (e : Str × UInt64) :
    readStreamEntry (pre ++ (StreamSnapshot.entryBytes e ++ post)) pre.length = shownCount e := by
  have hid := readId_field pre (StreamSnapshot.entryBytes e) post 0 [] e.1
    (by simp [StreamSnapshot.entryBytes]) rfl
  have hcount := readU64_field pre (StreamSnapshot.entryBytes e) post 32 (idField e.1) e.2
    (by simp [StreamSnapshot.entryBytes]) (length_idField e.1)
  rw [Nat.add_zero] at hid
  rw [readStreamEntry, hid, hcount, shownCount]

theorem readScriptEntry_entryBytes (pre post : List UInt8) (e : Str × ScriptStats) :
    readScriptEntry (pre ++ (ScriptSnapshot.entryBytes e ++ post)) pre.length = shownStats e := by
  have hid := readId_field pre (ScriptSnapshot.entryBytes e) post 0 [] e.1
    (by simp [ScriptSnapshot.entryBytes]) rfl
  have hcount := readU64_field pre (ScriptSnapshot.entryBytes e) post 32 (idField e.1) e.2.count
    (by simp [ScriptSnapshot.entryBytes]) (length_idField e.1)
  have havg := readU64_field pre (ScriptSnapshot.entryBytes e) post 40
    (idField e.1 ++ le64 e.2.count) (ScriptSnapshot.avgLatencyNs e.2)
    (by simp [ScriptSnapshot.entryBytes]) (by simp)
  have hmin := readU64_field pre (ScriptSnapshot.entryBytes e) post 48
    (idField e.1 ++ le64 e.2.count ++ le64 (ScriptSnapshot.avgLatencyNs e.2))
    (ScriptSnapshot.minLatencyNs e.2) (by simp [ScriptSnapshot.entryBytes]) (by simp)
  have hmax := readU64_field pre (ScriptSnapshot.entryBytes e) post 56
    (idField e.1 ++ le64 e.2.count ++ le64 (ScriptSnapshot.avgLatencyNs e.2)
      ++ le64 (ScriptSnapshot.minLatencyNs e.2)) e.2.maxLatencyNs
    (by simp [ScriptSnapshot.entryBytes]) (by simp)
  rw [Nat.add_zero] at hid
  rw [readScriptEntry, hid, hcount, havg, hmin, hmax, shownStats, packedStats]

/-! ## Chunks -/

/-- The dashboard reads a stream chunk as it was packed; index, count and length are sent in one,
one and two bytes. -/
theorem readStreamChunk_chunkBytes (s : StreamSnapshot) (chunkCount c : Nat)
    (part : List (Str × UInt64)) (post : List UInt8) :
    readStreamChunk (s.chunkBytes chunkCount c part ++ post) =
      { key := s.timestampNs
        info := ⟨s.totalEvents, s.totalEmitted, s.drops⟩
        index := c % 256
        count := chunkCount % 256
        items := readRecords readStreamEntry 40 (s.chunkBytes chunkCount c part ++ post)
          (part.length % 2 ^ 16) 36 } := by
  have hts := readU64_field [] (s.chunkBytes chunkCount c part) post 0 [] s.timestampNs
    (by simp [StreamSnapshot.chunkBytes]) rfl
  have hevents := readU64_field [] (s.chunkBytes chunkCount c part) post 8
    (le64 s.timestampNs) s.totalEvents (by simp [StreamSnapshot.chunkBytes]) (by simp)
  have hemitted := readU64_field [] (s.chunkBytes chunkCount c part) post 16
    (le64 s.timestampNs ++ le64 s.totalEvents) s.totalEmitted
    (by simp [StreamSnapshot.chunkBytes]) (by simp)
  have hdrops := readU64_field [] (s.chunkBytes chunkCount c part) post 24
    (le64 s.timestampNs ++ le64 s.totalEvents ++ le64 s.totalEmitted) s.drops
    (by simp [StreamSnapshot.chunkBytes]) (by simp)
  have hindex := getD_field (s.chunkBytes chunkCount c part) post
    (le64 s.timestampNs ++ le64 s.totalEvents ++ le64 s.totalEmitted ++ le64 s.drops)
    (UInt8.ofNat c) 0 (by simp [StreamSnapshot.chunkBytes]) (show _ = 32 by simp)
  have hcount := getD_field (s.chunkBytes chunkCount c part) post
    (le64 s.timestampNs ++ le64 s.totalEvents ++ le64 s.totalEmitted ++ le64 s.drops
      ++ [UInt8.ofNat c]) (UInt8.ofNat chunkCount) 0
    (by simp [StreamSnapshot.chunkBytes]) (show _ = 33 by simp)
  have hn := readU16_field [] (s.chunkBytes chunkCount c part) post 34
    (le64 s.timestampNs ++ le64 s.totalEvents ++ le64 s.totalEmitted ++ le64 s.drops
      ++ [UInt8.ofNat c] ++ [UInt8.ofNat chunkCount]) part.length
    (by simp [StreamSnapshot.chunkBytes]) (by simp)
  simp only [List.nil_append, List.length_nil, Nat.zero_add] at hts hevents hemitted hdrops hn
  rw [readStreamChunk, hts, hevents, hemitted, hdrops, hindex, hcount, hn, UInt8.toNat_ofNat',
    UInt8.toNat_ofNat']

theorem readScriptChunk_chunkBytes (s : ScriptSnapshot) (chunkCount c : Nat)
    (part : List (Str × ScriptStats)) (post : List UInt8) :
    readScriptChunk (s.chunkBytes chunkCount c part ++ post) =
      { key := s.timestampNs
        info := ()
        index := c % 256
        count := chunkCount % 256
        items := readRecords readScriptEntry 64 (s.chunkBytes chunkCount c part ++ post)
          (part.length % 2 ^ 16) 12 } := by
  have hts := readU64_field [] (s.chunkBytes chunkCount c part) post 0 [] s.timestampNs
    (by simp [ScriptSnapshot.chunkBytes]) rfl
  have hindex := getD_field (s.chunkBytes chunkCount c part) post (le64 s.timestampNs)
    (UInt8.ofNat c) 0 (by simp [ScriptSnapshot.chunkBytes]) (show _ = 8 by simp)
  have hcount := getD_field (s.chunkBytes chunkCount c part) post
    (le64 s.timestampNs ++ [UInt8.ofNat c]) (UInt8.ofNat chunkCount) 0
    (by simp [ScriptSnapshot.chunkBytes]) (show _ = 9 by simp)
  have hn := readU16_field [] (s.chunkBytes chunkCount c part) post 10
    (le64 s.timestampNs ++ [UInt8.ofNat c] ++ [UInt8.ofNat chunkCount]) part.length
    (by simp [ScriptSnapshot.chunkBytes]) (by simp)
  simp only [List.nil_append, List.length_nil, Nat.zero_add] at hts hn
  rw [readScriptChunk, hts, hindex, hcount, hn, UInt8.toNat_ofNat', UInt8.toNat_ofNat']

/-- The entries of a stream chunk are read back as long as two bytes hold their number. -/
theorem readRecords_streamChunk (s : StreamSnapshot) (chunkCount c : Nat)
    (part : List (Str × UInt64)) (post : List UInt8) :
    readRecords readStreamEntry 40 (s.chunkBytes chunkCount c part ++ post) part.length 36
      = part.map shownCount := by
  have h := readRecords_flatMap length_streamEntry readStreamEntry_entryBytes part
    (le64 s.timestampNs ++ le64 s.totalEvents ++ le64 s.totalEmitted ++ le64 s.drops
      ++ [UInt8.ofNat c] ++ [UInt8.ofNat chunkCount] ++ le16 (UInt16.ofNat part.length)) post
  rw [← List.append_assoc] at h
  simpa [StreamSnapshot.chunkBytes] using h

theorem readRecords_scriptChunk (s : ScriptSnapshot) (chunkCount c : Nat)
    (part : List (Str × ScriptStats)) (post : List UInt8) :
    readRecords readScriptEntry 64 (s.chunkBytes chunkCount c part ++ post) part.length 12
      = part.map shownStats := by
  have h := readRecords_flatMap length_scriptEntry readScriptEntry_entryBytes part
    (le64 s.timestampNs ++ [UInt8.ofNat c] ++ [UInt8.ofNat chunkCount]
      ++ le16 (UInt16.ofNat part.length)) post
  rw [← List.append_assoc] at h
  simpa [ScriptSnapshot.chunkBytes] using h

/-! ## Events -/

def schemaField (schema : Str) : Vector UInt8 schemaIdMax :=
  (({} : Event 0).setSchema schema).schemaId

/-- An event of the metrics thread with the given bytes at the start of its payload. -/
structure Carries (schema : Str) (chunk : List UInt8) (ev : Event P) : Prop where
  stream : ev.streamId = (({} : Event 0).setStream (lit "telemetry")).streamId
  schema : ev.schemaId = schemaField schema
  payload : ∃ post, ev.payload.toList = chunk ++ post

theorem carries_metricsEvent {now : UInt64} {schema : Str} {chunk : List UInt8} {ev : Event P}
    (h : metricsEvent P now schema chunk = some ev) : Carries schema chunk ev := by
  rcases Nat.lt_or_ge P chunk.length with hlt | hle
  · simp [metricsEvent, Event.setPayload, hlt] at h
  · have htake := Event.setPayload_payload
      ((({ timestampNs := now } : Event P).setStream (lit "telemetry")).setSchema schema) chunk hle
    simp only [metricsEvent, Event.setPayload, if_neg (Nat.not_lt.mpr hle),
      Option.some.injEq] at h htake
    subst h
    refine ⟨rfl, rfl, ?_⟩
    exact ⟨_, (List.take_append_drop chunk.length _).symm.trans (congrArg (· ++ _) htake)⟩

theorem exists_metricsEvent (now : UInt64) (schema : Str) (chunk : List UInt8)
    (h : chunk.length ≤ P) : ∃ ev, metricsEvent P now schema chunk = some ev := by
  simp [metricsEvent, Event.setPayload, Nat.not_lt.mpr h]

theorem publish_stream {chunk : List UInt8} {ev : Event P} (h : Carries streamsSchema chunk ev)
    (ep : TelemetryStdoutEndpoint) : ep.publish ev = ep.handleStreamChunk ev := by
  rw [TelemetryStdoutEndpoint.publish, h.stream, h.schema, if_neg (by decide), if_pos (by decide)]

theorem publish_script {chunk : List UInt8} {ev : Event P} (h : Carries scriptsSchema chunk ev)
    (ep : TelemetryStdoutEndpoint) : ep.publish ev = ep.handleScriptChunk ev := by
  rw [TelemetryStdoutEndpoint.publish, h.stream, h.schema, if_neg (by decide), if_neg (by decide),
    if_pos (by decide)]

section Carried
variable {K I E α : Type} {S : Snapshot K I E} {dec : List UInt8 → Chunk K I E}

/-- The events `sent` carry the chunks of `S` as `dec` reads them. -/
structure Carried (S : Snapshot K I E) (dec : List UInt8 → Chunk K I E) (sent : List (Event P)) :
    Prop where
  lt : ∀ ev ∈ sent, (dec ev.payload.toList).index < S.parts.length
  chunk : ∀ ev ∈ sent, dec ev.payload.toList = S.chunk (dec ev.payload.toList).index
  cover : ∀ i < S.parts.length, ∃ ev ∈ sent, (dec ev.payload.toList).index = i

/-- The events of a packed snapshot carry it, if every chunk fits its event and is read back. -/
theorem carried_metricsEvents {now : UInt64} {schema : Str} {parts : List (List α)}
    {enc : Nat → List α → List UInt8} (hparts : S.parts.length = parts.length)
    (hfit : ∀ part ∈ parts, ∀ i, (enc i part).length ≤ P)
    (hdec : ∀ i (h : i < parts.length) post, dec (enc i parts[i] ++ post) = S.chunk i) :
    Carried S dec (metricsEvents P now schema (parts.mapIdx enc)) := by
  have hmem : ∀ ev ∈ metricsEvents P now schema (parts.mapIdx enc),
      ∃ i < parts.length, dec ev.payload.toList = S.chunk i := by
    intro ev hev
    obtain ⟨chunk, hchunk, hsome⟩ := List.mem_filterMap.mp hev
    obtain ⟨i, hi, rfl⟩ := List.mem_mapIdx.mp hchunk
    obtain ⟨post, hpost⟩ := (carries_metricsEvent hsome).payload
    exact ⟨i, hi, by rw [hpost, hdec i hi]⟩
  refine ⟨fun ev hev => ?_, fun ev hev => ?_, fun i hi => ?_⟩
  · obtain ⟨i, hi, hchunk⟩ := hmem ev hev
    rw [hchunk, hparts]
    exact hi
  · obtain ⟨i, hi, hchunk⟩ := hmem ev hev
    rw [hchunk]
    rfl
  · rw [hparts] at hi
    obtain ⟨ev, hev⟩ := exists_metricsEvent now schema (enc i parts[i])
      (hfit parts[i] (List.getElem_mem hi) i)
    obtain ⟨post, hpost⟩ := (carries_metricsEvent hev).payload
    refine ⟨ev, List.mem_filterMap.mpr ⟨_, List.mem_mapIdx.mpr ⟨i, hi, rfl⟩, hev⟩, ?_⟩
    rw [hpost, hdec i hi]
    rfl

/-- Every chunk delivered at least once, and nothing else: the snapshot is shown. -/
theorem Carried.shows [DecidableEq K] {sent evs : List (Event P)} (h : Carried S dec sent)
    (a : Assembler K I E) (hS : S.parts ≠ []) (hpending : ∀ g, a.pending = some g → g.key ≠ S.key)
    (hevs : ∀ ev, ev ∈ evs ↔ ev ∈ sent) :
    ∃ g, (evs.foldl (fun a ev => a.receive (dec ev.payload.toList)) a).latest = some g ∧
      Shown S g := by
  have hfold : ∀ (evs : List (Event P)) (a : Assembler K I E), (∀ ev ∈ evs, ev ∈ sent) →
      evs.foldl (fun a ev => a.receive (dec ev.payload.toList)) a
        = (evs.map fun ev => (dec ev.payload.toList).index).foldl
            (fun a i => a.receive (S.chunk i)) a := by
    intro evs
    induction evs with
    | nil => intro a _; rfl
    | cons ev evs ih =>
        intro a hevs
        rw [List.foldl_cons, List.map_cons, List.foldl_cons, ← h.chunk ev (hevs ev (by simp))]
        exact ih _ fun ev' hev' => hevs ev' (by simp [hev'])
  rw [hfold evs a fun ev hev => (hevs ev).mp hev]
  refine foldl_receive_shows a hS hpending _ (fun i hi => ?_) fun i hi => ?_
  · obtain ⟨ev, hev, rfl⟩ := List.mem_map.mp hi
    exact h.lt ev ((hevs ev).mp hev)
  · obtain ⟨ev, hev, hidx⟩ := h.cover i hi
    exact List.mem_map.mpr ⟨ev, (hevs ev).mpr hev, hidx⟩

/-- Any of the chunks keeps the receiver consistent. -/
theorem Carried.consistent [DecidableEq K] {sent : List (Event P)} (h : Carried S dec sent)
    {F : Set (Snapshot K I E)} (hkey : ∀ S ∈ F, ∀ S' ∈ F, S.key = S'.key → S = S') (hS : S ∈ F)
    {a : Assembler K I E} (ha : Consistent F a) {ev : Event P} (hev : ev ∈ sent) :
    Consistent F (a.receive (dec ev.payload.toList)) := by
  rw [h.chunk ev hev]
  exact ha.receive hkey hS (h.lt ev hev)

end Carried

/-! ## Snapshots as their chunks carry them -/

def streamParts (P : Nat) (s : StreamSnapshot) : Snapshot UInt64 StreamTotals (Str × UInt64) where
  key := s.timestampNs
  info := ⟨s.totalEvents, s.totalEmitted, s.drops⟩
  parts := (s.parts P).map fun part => part.map shownCount

def scriptParts (P : Nat) (s : ScriptSnapshot) : Snapshot UInt64 Unit ScriptEntry where
  key := s.timestampNs
  info := ()
  parts := (s.parts P).map fun part => part.map shownStats

/-- `g` shows the stream snapshot `s`, identifiers cut, in some order of the entries. -/
structure ShowsStream (s : StreamSnapshot) (g : StreamGroup) : Prop where
  timestampNs : g.key = s.timestampNs
  totals : g.info = ⟨s.totalEvents, s.totalEmitted, s.drops⟩
  entries : g.items.Perm (s.entries.map shownCount)

/-- `g` shows the script snapshot `s`, identifiers cut, in some order of the entries. -/
structure ShowsScript (s : ScriptSnapshot) (g : ScriptGroup) : Prop where
  timestampNs : g.key = s.timestampNs
  entries : g.items.Perm (s.entries.map shownStats)

theorem showsStream_of_shown (hP : 76 ≤ P) {s : StreamSnapshot} {g : StreamGroup}
    (h : Shown (streamParts P s) g) : ShowsStream s g := by
  refine ⟨h.key, h.info, ?_⟩
  rw [← StreamSnapshot.flatten_parts (StreamSnapshot.maxEntries_pos hP) s, List.map_flatten]
  exact h.items

theorem showsScript_of_shown (hP : 76 ≤ P) {s : ScriptSnapshot} {g : ScriptGroup}
    (h : Shown (scriptParts P s) g) : ShowsScript s g := by
  refine ⟨h.key, ?_⟩
  rw [← ScriptSnapshot.flatten_parts (ScriptSnapshot.maxEntries_pos hP) s, List.map_flatten]
  exact h.items

def streamEvents (P : Nat) (now : UInt64) (s : StreamSnapshot) : List (Event P) :=
  metricsEvents P now streamsSchema ((s.pack P).getD [])

def scriptEvents (P : Nat) (now : UInt64) (s : ScriptSnapshot) : List (Event P) :=
  metricsEvents P now scriptsSchema ((s.pack P).getD [])

theorem length_streamChunk (s : StreamSnapshot) (chunkCount c : Nat) (part : List (Str × UInt64)) :
    (s.chunkBytes chunkCount c part).length = 36 + 40 * part.length := by
  have hentries : (part.flatMap StreamSnapshot.entryBytes).length = 40 * part.length := by
    rw [List.length_flatMap, List.map_congr_left (fun e _ => length_streamEntry e),
      List.map_const', List.sum_replicate_nat, Nat.mul_comm]
  simp [StreamSnapshot.chunkBytes, hentries]
  omega

theorem length_scriptChunk (s : ScriptSnapshot) (chunkCount c : Nat)
    (part : List (Str × ScriptStats)) :
    (s.chunkBytes chunkCount c part).length = 12 + 64 * part.length := by
  have hentries : (part.flatMap ScriptSnapshot.entryBytes).length = 64 * part.length := by
    rw [List.length_flatMap, List.map_congr_left (fun e _ => length_scriptEntry e),
      List.map_const', List.sum_replicate_nat, Nat.mul_comm]
  simp [ScriptSnapshot.chunkBytes, hentries]
  omega

theorem carried_streamEvents (hP : 76 ≤ P) (hn : P < 36 + 40 * 2 ^ 16) (now : UInt64)
    {s : StreamSnapshot} {chunks : List (List UInt8)} (hpack : s.pack P = some chunks)
    (hc : s.chunkCount P ≤ 255) :
    Carried (streamParts P s) readStreamChunk (metricsEvents P now streamsSchema chunks) := by
  have hpart : ∀ part ∈ s.parts P, part.length ≤ (P - 36) / 40 := by
    intro part h
    rw [← StreamSnapshot.maxEntries_eq (by omega)]
    exact length_le_of_mem_splitLoop h
  obtain ⟨rfl, -⟩ := StreamSnapshot.pack_eq_some.mp hpack
  refine carried_metricsEvents (by simp [streamParts]) (fun part h i => ?_) fun i hi post => ?_
  · have := hpart part h
    rw [length_streamChunk]
    omega
  · have hi' : i < s.chunkCount P := by simpa using hi
    have hlen := hpart _ (List.getElem_mem hi)
    rw [readStreamChunk_chunkBytes, Nat.mod_eq_of_lt (show (s.parts P)[i].length < 2 ^ 16 by omega),
      readRecords_streamChunk, Nat.mod_eq_of_lt (show i < 256 by omega),
      Nat.mod_eq_of_lt (show s.chunkCount P < 256 by omega)]
    simp [Snapshot.chunk, streamParts, hi']

theorem carried_scriptEvents (hP : 76 ≤ P) (hn : P < 36 + 40 * 2 ^ 16) (now : UInt64)
    {s : ScriptSnapshot} {chunks : List (List UInt8)} (hpack : s.pack P = some chunks)
    (hc : s.chunkCount P ≤ 255) :
    Carried (scriptParts P s) readScriptChunk (metricsEvents P now scriptsSchema chunks) := by
  have hpart : ∀ part ∈ s.parts P, part.length ≤ (P - 12) / 64 := by
    intro part h
    rw [← ScriptSnapshot.maxEntries_eq (by omega)]
    exact length_le_of_mem_splitLoop h
  obtain ⟨rfl, -⟩ := ScriptSnapshot.pack_eq_some.mp hpack
  refine carried_metricsEvents (by simp [scriptParts]) (fun part h i => ?_) fun i hi post => ?_
  · have := hpart part h
    rw [length_scriptChunk]
    omega
  · have hi' : i < s.chunkCount P := by simpa using hi
    have hlen := hpart _ (List.getElem_mem hi)
    rw [readScriptChunk_chunkBytes, Nat.mod_eq_of_lt (show (s.parts P)[i].length < 2 ^ 16 by omega),
      readRecords_scriptChunk, Nat.mod_eq_of_lt (show i < 256 by omega),
      Nat.mod_eq_of_lt (show s.chunkCount P < 256 by omega)]
    simp [Snapshot.chunk, scriptParts, hi']

end Mawmaw.Server
