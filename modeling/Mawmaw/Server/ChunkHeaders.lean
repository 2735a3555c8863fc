import Mawmaw.Server.Conservation
import Mawmaw.Server.Snapshots

/-!
# What the chunk headers say

* `Builds` : the builds that compile;
* `Faithful` : the headers number and count the chunks, and count the entries;
* `faithful_mapIdx_iff` : so they do while the numbers fit the header's fields;
* `chunk_headers_faithful_iff` : for both kinds of metrics;
* `chunks_fit_iff` : the builds whose chunks all fit an event.
-/

namespace Mawmaw.Server
open Mawmaw.Lib Mawmaw.Core Mawmaw.Pub

variable {P : Nat}

/-! ## Builds -/

/-- The assertions of the two packers: `MAX_ENTRIES_PER_CHUNK > 0`. -/
structure Builds (P : Nat) : Prop where
  streams : 0 < StreamSnapshot.maxEntries P
  scripts : 0 < ScriptSnapshot.maxEntries P

/-- They admit the sizes that hold an entry, and those the subtraction wraps around on. -/
theorem builds_iff : Builds P ↔ P < 12 ∨ 76 ≤ P := by
  constructor
  · intro h
    have hscripts := h.scripts
    by_contra hno
    rw [ScriptSnapshot.maxEntries_eq (by omega)] at hscripts
    omega
  · rintro (hsmall | hlarge)
    · have hwrap : ∀ b : Nat, 12 ≤ b → sizeSub P b = P + 2 ^ 64 - b := by
        intro b hb
        exact if_neg (by omega)
      constructor
      · unfold StreamSnapshot.maxEntries
        rw [hwrap _ (by decide)]
        exact Nat.div_pos (show 40 ≤ P + 2 ^ 64 - 36 by omega) (by decide)
      · unfold ScriptSnapshot.maxEntries
        rw [hwrap _ (by decide)]
        exact Nat.div_pos (show 64 ≤ P + 2 ^ 64 - 12 by omega) (by decide)
    · exact ⟨StreamSnapshot.maxEntries_pos hlarge, ScriptSnapshot.maxEntries_pos hlarge⟩

/-! ## Faithful headers -/

/-- The header of each chunk gives its index, the number of chunks and the number of entries that
follow it, and there are `total` entries in all. -/
structure Faithful (readHeader : List UInt8 → ChunkHeader) (headerSize entrySize : Nat)
    (chunks : List (List UInt8)) (total : Nat) : Prop where
  index : ∀ i (h : i < chunks.length), (readHeader chunks[i]).index = i
  count : ∀ chunk ∈ chunks, (readHeader chunk).count = chunks.length
  follow : ∀ chunk ∈ chunks, chunk.length = headerSize + entrySize * (readHeader chunk).n
  total : (chunks.map fun chunk => (readHeader chunk).n).sum = total

theorem faithful_nil {readHeader : List UInt8 → ChunkHeader} {headerSize entrySize : Nat} :
    Faithful readHeader headerSize entrySize [] 0 where
  index _ h := absurd h (Nat.not_lt_zero _)
  count := List.forall_mem_nil _
  follow := List.forall_mem_nil _
  total := rfl

section
variable {α : Type} {readHeader : List UInt8 → ChunkHeader} {headerSize entrySize : Nat}
  {parts : List (List α)} {enc : Nat → List α → List UInt8}

/-- Fields of one byte, one byte and two bytes. -/
theorem faithful_mapIdx_iff (hentry : 0 < entrySize)
    (hread : ∀ c part, readHeader (enc c part)
      = ⟨c % 256, parts.length % 256, part.length % 2 ^ 16⟩)
    (hlen : ∀ c part, (enc c part).length = headerSize + entrySize * part.length) :
    Faithful readHeader headerSize entrySize (parts.mapIdx enc) parts.flatten.length
      ↔ parts.length ≤ 255 ∧ ∀ part ∈ parts, part.length < 2 ^ 16 := by
  have hmem : ∀ chunk, chunk ∈ parts.mapIdx enc → ∃ c, ∃ part ∈ parts, enc c part = chunk := by
    intro chunk hchunk
    obtain ⟨i, hi, rfl⟩ := List.mem_mapIdx.mp hchunk
    exact ⟨i, _, List.getElem_mem hi, rfl⟩
  constructor
  · intro hf
    refine ⟨?_, fun part hpart => ?_⟩
    · by_contra hmany
      have hpos : 0 < (parts.mapIdx enc).length := by
        rw [List.length_mapIdx]
        omega
      have hcount := hf.count _ (List.getElem_mem hpos)
      rw [List.getElem_mapIdx, hread, List.length_mapIdx] at hcount
      simp only at hcount
      omega
    · obtain ⟨i, hi, rfl⟩ := List.getElem_of_mem hpart
      have hfollow := hf.follow (enc i parts[i]) (List.mem_mapIdx.mpr ⟨i, hi, rfl⟩)
      rw [hread, hlen] at hfollow
      have hn : parts[i].length = parts[i].length % 2 ^ 16 :=
        Nat.eq_of_mul_eq_mul_left hentry (Nat.add_left_cancel hfollow)
      rw [hn]
      exact Nat.mod_lt _ (by decide)
  · rintro ⟨hcount, hshort⟩
    refine ⟨fun i hi => ?_, fun chunk hchunk => ?_, fun chunk hchunk => ?_, ?_⟩
    · rw [List.length_mapIdx] at hi
      rw [List.getElem_mapIdx, hread]
      exact Nat.mod_eq_of_lt (by omega)
    · obtain ⟨c, part, -, rfl⟩ := hmem chunk hchunk
      rw [hread, List.length_mapIdx]
      exact Nat.mod_eq_of_lt (by omega)
    · obtain ⟨c, part, hpart, rfl⟩ := hmem chunk hchunk
      rw [hread, hlen, Nat.mod_eq_of_lt (hshort part hpart)]
    · have hsizes : (parts.mapIdx enc).map (fun chunk => (readHeader chunk).n)
          = parts.map List.length := by
        apply List.ext_getElem
        · simp
        · intro i hi _
          rw [List.getElem_map, List.getElem_mapIdx, List.getElem_map, hread]
          exact Nat.mod_eq_of_lt (hshort _ (List.getElem_mem _))
      rw [hsizes, List.length_flatten]

end

/-! ## The split -/

section Split
variable {α : Type} {maxEntries : Nat} {entries : List α}

theorem ceilDiv_le_iff (hmax : 0 < maxEntries) (total m : Nat) :
    ceilDiv total maxEntries ≤ m ↔ total ≤ m * maxEntries := by
  unfold ceilDiv
  rw [Nat.div_le_iff_le_mul_add_pred hmax, Nat.mul_comm]
  omega

theorem length_le_min_of_mem_splitLoop {rounds idx : Nat} {part : List α}
    (h : part ∈ splitLoop maxEntries entries rounds idx) :
    part.length ≤ min maxEntries entries.length := by
  induction rounds generalizing idx with
  | zero => cases h
  | succ rounds ih =>
      rcases List.mem_cons.mp h with rfl | h
      · rw [List.length_take, List.length_drop]
        omega
      · exact ih h

/-- The first chunk is as long as any. -/
theorem splitLoop_lengths {rounds : Nat} (hrounds : entries ≠ [] → 0 < rounds) {n : Nat}
    (hn : 0 < n) :
    (∀ part ∈ splitLoop maxEntries entries rounds 0, part.length < n)
      ↔ min maxEntries entries.length < n := by
  constructor
  · intro hall
    by_cases hnil : entries = []
    · rw [hnil, List.length_nil, Nat.min_zero]
      exact hn
    · obtain ⟨m, rfl⟩ := Nat.exists_eq_succ_of_ne_zero (hrounds hnil).ne'
      have hfirst := hall _ List.mem_cons_self
      rw [List.drop_zero, List.length_take, Nat.sub_zero] at hfirst
      omega
  · intro hmin part hpart
    exact lt_of_le_of_lt (length_le_min_of_mem_splitLoop hpart) hmin

end Split

/-- At most 255 chunks, of at most 65535 entries each. -/
def FitsHeader (maxEntries total : Nat) : Prop :=
  total ≤ 255 * maxEntries ∧ min maxEntries total ≤ 65535

theorem fitsHeader_zero (maxEntries : Nat) : FitsHeader maxEntries 0 := by
  unfold FitsHeader
  omega

/-- A packer's chunks: none where `p` says so, and else the parts of the split. -/
theorem packed_faithful_iff {α : Type} {readHeader : List UInt8 → ChunkHeader}
    {headerSize entrySize maxEntries rounds : Nat} {entries : List α}
    {enc : Nat → List α → List UInt8} {p : Prop} [Decidable p] (hp : p → entries = [])
    (hle : rounds ≤ 255 ↔ entries.length ≤ 255 * maxEntries) (hpos : entries ≠ [] → 0 < rounds)
    (hflat : (splitLoop maxEntries entries rounds 0).flatten = entries) (hentry : 0 < entrySize)
    (hread : ∀ c part, readHeader (enc c part)
      = ⟨c % 256, rounds % 256, part.length % 2 ^ 16⟩)
    (hlen : ∀ c part, (enc c part).length = headerSize + entrySize * part.length) :
    Faithful readHeader headerSize entrySize
        ((if p then none else some ((splitLoop maxEntries entries rounds 0).mapIdx enc)).getD [])
        entries.length
      ↔ FitsHeader maxEntries entries.length := by
  have hrounds : (splitLoop maxEntries entries rounds 0).length = rounds := length_splitLoop _ _
  have hread' : ∀ c part, readHeader (enc c part) = ⟨c % 256,
      (splitLoop maxEntries entries rounds 0).length % 256, part.length % 2 ^ 16⟩ := by
    intro c part
    rw [hrounds, hread]
  have hfaithful := faithful_mapIdx_iff hentry hread' hlen
  rw [hflat, hrounds, hle, splitLoop_lengths hpos (by decide)] at hfaithful
  split
  · rename_i hnone
    rw [hp hnone]
    exact iff_of_true faithful_nil (fitsHeader_zero _)
  · exact hfaithful.trans (and_congr_right fun _ => Nat.lt_succ_iff)

/-! ## The two kinds of metrics -/

theorem readStreamHeader_chunkBytes (s : StreamSnapshot) (chunkCount c : Nat)
    (part : List (Str × UInt64)) :
    readStreamHeader (s.chunkBytes chunkCount c part)
      = ⟨c % 256, chunkCount % 256, part.length % 2 ^ 16⟩ := by
  have hchunk := readStreamChunk_chunkBytes s chunkCount c part []
  rw [List.append_nil] at hchunk
  rw [readStreamHeader_eq, hchunk, length_readRecords]

theorem readScriptHeader_chunkBytes (s : ScriptSnapshot) (chunkCount c : Nat)
    (part : List (Str × ScriptStats)) :
    readScriptHeader (s.chunkBytes chunkCount c part)
      = ⟨c % 256, chunkCount % 256, part.length % 2 ^ 16⟩ := by
  have hchunk := readScriptChunk_chunkBytes s chunkCount c part []
  rw [List.append_nil] at hchunk
  rw [readScriptHeader_eq, hchunk, length_readRecords]

theorem streamHeaders_iff (hmax : 0 < StreamSnapshot.maxEntries P) (s : StreamSnapshot) :
    Faithful readStreamHeader StreamSnapshot.headerSize StreamSnapshot.entrySize
        ((s.pack P).getD []) s.entries.length
      ↔ FitsHeader (StreamSnapshot.maxEntries P) s.entries.length := by
  refine packed_faithful_iff (fun hnone => ?_) ?_ (fun hne => ?_)
    (StreamSnapshot.flatten_parts hmax s) (by decide)
    (readStreamHeader_chunkBytes s (s.chunkCount P)) (length_streamChunk s (s.chunkCount P))
  · rw [Bool.and_eq_true, List.isEmpty_iff] at hnone
    exact hnone.1
  · unfold StreamSnapshot.chunkCount
    split
    · omega
    · exact ceilDiv_le_iff hmax _ _
  · have hlen := List.length_pos_of_ne_nil hne
    unfold StreamSnapshot.chunkCount
    rw [if_neg (by omega)]
    exact Nat.div_pos (by omega) hmax

theorem scriptHeaders_iff (hmax : 0 < ScriptSnapshot.maxEntries P) (s : ScriptSnapshot) :
    Faithful readScriptHeader ScriptSnapshot.headerSize ScriptSnapshot.entrySize
        ((s.pack P).getD []) s.entries.length
      ↔ FitsHeader (ScriptSnapshot.maxEntries P) s.entries.length := by
  refine packed_faithful_iff List.isEmpty_iff.mp (ceilDiv_le_iff hmax _ _) (fun hne => ?_)
    (ScriptSnapshot.flatten_parts hmax s) (by decide)
    (readScriptHeader_chunkBytes s (s.chunkCount P)) (length_scriptChunk s (s.chunkCount P))
  have hlen := List.length_pos_of_ne_nil hne
  exact Nat.div_pos (by omega) hmax

/-- The headers of what one round packs, with `n` active streams and `m` active scripts. -/
theorem chunk_headers_faithful_iff (hP : Builds P) (tel : Telemetry) (timestampNs now : UInt64) :
    (Faithful readStreamHeader StreamSnapshot.headerSize StreamSnapshot.entrySize
        ((tel.packStreamMetrics P timestampNs).1.getD [])
        (tel.streamSnapshot timestampNs).entries.length
      ↔ FitsHeader (StreamSnapshot.maxEntries P) (tel.streamSnapshot timestampNs).entries.length)
    ∧ (Faithful readScriptHeader ScriptSnapshot.headerSize ScriptSnapshot.entrySize
        ((tel.packScriptMetrics P timestampNs now).1.getD [])
        (tel.scriptSnapshot timestampNs now).entries.length
      ↔ FitsHeader (ScriptSnapshot.maxEntries P)
        (tel.scriptSnapshot timestampNs now).entries.length) :=
  ⟨streamHeaders_iff hP.streams _, scriptHeaders_iff hP.scripts _⟩

/-! ### Too many streams -/

/-- Three letters, the digits of `i` in base ten, hundreds in the first. -/
def streamName (i : Nat) : Str :=
  [UInt8.ofNat (97 + i / 100), UInt8.ofNat (97 + i / 10 % 10), UInt8.ofNat (97 + i % 10)]

theorem streamName_inj {i j : Nat} (hi : i < 10000) (hj : j < 10000)
    (h : streamName i = streamName j) : i = j := by
  simp only [streamName, List.cons.injEq, and_true] at h
  obtain ⟨h₁, h₂, h₃⟩ := h
  have h₁ := congrArg UInt8.toNat h₁
  have h₂ := congrArg UInt8.toNat h₂
  have h₃ := congrArg UInt8.toNat h₃
  simp only [UInt8.toNat_ofNat'] at h₁ h₂ h₃
  omega

def countedOnce (ids : List Str) : UMap Str UInt64 := ids.foldl (fun m id => m.insert id 1) ∅

/-- The counters after one event on each stream. -/
def active (ids : List Str) : Telemetry := { enabled := true, eventCounts := countedOnce ids }

/-- Six streams, one more than a chunk of the default build holds, and five scripts, of which three
fit a chunk. -/
def busy : Telemetry :=
  { active ((List.range 6).map streamName) with
    scriptStats := (List.range 5).foldl
      (fun m i => m.insert (streamName i)
        { count := 2, totalLatencyNs := 30, minLatencyNs := 10, maxLatencyNs := 20 }) ∅ }

theorem chunk_headers_faithful_busy :
    Faithful readStreamHeader 36 40 ((busy.packStreamMetrics 256 7).1.getD []) 6
      ∧ Faithful readScriptHeader 12 64 ((busy.packScriptMetrics 256 7 7).1.getD []) 5 := by
  have hstreams : (busy.streamSnapshot 7).entries.length = 6 := by decide +kernel
  have hscripts : (busy.scriptSnapshot 7 7).entries.length = 5 := by decide +kernel
  have hiff := chunk_headers_faithful_iff (P := 256) ⟨by decide, by decide⟩ busy 7 7
  rw [hstreams, hscripts] at hiff
  exact ⟨hiff.1.mpr (by unfold FitsHeader; decide), hiff.2.mpr (by unfold FitsHeader; decide)⟩

theorem lookup_countedOnce {ids : List Str} {id : Str} (h : id ∈ ids) :
    (countedOnce ids).lookup id = some 1 :=
  UMap.lookup_register_of_mem (fun id => id) (fun _ => 1) h fun _ _ _ => rfl

/-- Every stream that was counted has an entry. -/
theorem length_le_streamSnapshot {ids : List Str} (hids : ids.Nodup) (timestampNs : UInt64) :
    ids.length ≤ ((active ids).streamSnapshot timestampNs).entries.length := by
  have hsub : ids ⊆ (Telemetry.addCounts (Telemetry.addCounts ∅
      (Telemetry.takeCounts (countedOnce ids))) (Telemetry.takeCounts ∅)).keys := by
    intro id hid
    apply AList.mem_keys.mp
    apply Telemetry.mem_addCounts
    left
    apply Telemetry.mem_addCounts
    right
    apply AList.lookup_isSome.mp
    rw [Telemetry.takeCounts, UMap.lookup_collect, lookup_countedOnce hid]
    rfl
  have hlen := (List.subperm_of_subset hids hsub).length_le
  have hkeys : ∀ m : UMap Str UInt64, m.toPairs.length = m.keys.length := by
    intro m
    rw [UMap.toPairs, AList.keys, List.keys, List.length_map, List.length_map]
  exact hlen.trans (le_of_eq (hkeys _).symm)

/-- With more streams than 255 chunks have room for, the headers are not faithful. -/
theorem not_faithful_of_crowded {ids : List Str} (hids : ids.Nodup)
    (hmax : 0 < StreamSnapshot.maxEntries P)
    (hcrowd : 255 * StreamSnapshot.maxEntries P < ids.length) (timestampNs : UInt64) :
    ¬Faithful readStreamHeader StreamSnapshot.headerSize StreamSnapshot.entrySize
        (((active ids).packStreamMetrics P timestampNs).1.getD [])
        ((active ids).streamSnapshot timestampNs).entries.length := by
  intro hf
  have hfits := ((streamHeaders_iff hmax ((active ids).streamSnapshot timestampNs)).mp hf).1
  have hlen := length_le_streamSnapshot hids timestampNs
  omega

/-- More streams than 255 chunks of the default build have room for. -/
def manyIds : List Str := (List.range 1276).map streamName

theorem nodup_manyIds : manyIds.Nodup := by
  refine List.Nodup.map_on (fun i hi j hj h => ?_) List.nodup_range
  rw [List.mem_range] at hi hj
  exact streamName_inj (by omega) (by omega) h

theorem chunk_headers_not_faithful :
    Builds 256 ∧ ¬Faithful readStreamHeader StreamSnapshot.headerSize StreamSnapshot.entrySize
        (((active manyIds).packStreamMetrics 256 7).1.getD [])
        ((active manyIds).streamSnapshot 7).entries.length := by
  have hlen : manyIds.length = 1276 := by rw [manyIds, List.length_map, List.length_range]
  have hmax : StreamSnapshot.maxEntries 256 = 5 := by decide
  refine ⟨⟨by decide, by decide⟩, not_faithful_of_crowded nodup_manyIds (by decide) ?_ 7⟩
  rw [hlen, hmax]
  decide

/-! ## Chunks and events -/

/-- Every chunk is as long as an event takes, and is sent in one. -/
structure Sent (P : Nat) (chunks : List (List UInt8)) : Prop where
  fits : ∀ chunk ∈ chunks, chunk.length ≤ P
  sent : ∀ now schema, (metricsEvents P now schema chunks).length = chunks.length

theorem sent_of_fits {chunks : List (List UInt8)} (h : ∀ chunk ∈ chunks, chunk.length ≤ P) :
    Sent P chunks where
  fits := h
  sent now schema := by
    rw [metricsEvents, List.length_filterMap_eq_countP, List.countP_eq_length]
    intro chunk hchunk
    exact Option.isSome_iff_exists.mpr (exists_metricsEvent now schema chunk (h chunk hchunk))

/-- No chunk of a build is lost, whatever the counters. -/
def AllSent (P : Nat) : Prop :=
  ∀ (tel : Telemetry) (timestampNs now : UInt64),
    Sent P ((tel.packStreamMetrics P timestampNs).1.getD [])
      ∧ Sent P ((tel.packScriptMetrics P timestampNs now).1.getD [])

theorem mem_packed {chunks : List (List UInt8)} {r : Option (List (List UInt8))} {p : Prop}
    [Decidable p] (hr : r = if p then none else some chunks) {chunk : List UInt8}
    (h : chunk ∈ r.getD []) : chunk ∈ chunks := by
  subst hr
  split at h
  · cases h
  · exact h

theorem streamChunks_fit (hP : 76 ≤ P) (s : StreamSnapshot) :
    ∀ chunk ∈ (s.pack P).getD [], chunk.length ≤ P := by
  intro chunk hchunk
  obtain ⟨i, hi, rfl⟩ := List.mem_mapIdx.mp (mem_packed rfl hchunk)
  have hpart : (s.parts P)[i].length ≤ (P - 36) / 40 := by
    rw [← StreamSnapshot.maxEntries_eq (by omega)]
    exact length_le_of_mem_splitLoop (List.getElem_mem hi)
  rw [length_streamChunk]
  omega

theorem scriptChunks_fit (hP : 76 ≤ P) (s : ScriptSnapshot) :
    ∀ chunk ∈ (s.pack P).getD [], chunk.length ≤ P := by
  intro chunk hchunk
  obtain ⟨i, hi, rfl⟩ := List.mem_mapIdx.mp (mem_packed rfl hchunk)
  have hpart : (s.parts P)[i].length ≤ (P - 12) / 64 := by
    rw [← ScriptSnapshot.maxEntries_eq (by omega)]
    exact length_le_of_mem_splitLoop (List.getElem_mem hi)
  rw [length_scriptChunk]
  omega

/-- A dropped event alone makes a chunk of the size of a header. -/
theorem drop_reported (P : Nat) :
    ∃ chunk ∈ (({ enabled := true, drops := 1 } : Telemetry).packStreamMetrics P 7).1.getD [],
      chunk.length = 36 := by
  let s : StreamSnapshot := ({ enabled := true, drops := 1 } : Telemetry).streamSnapshot 7
  have hentries : s.entries = [] := rfl
  have hparts : s.parts P = [[]] := by
    rw [StreamSnapshot.parts, StreamSnapshot.chunkCount, hentries]
    simp [splitLoop]
  have hpack : s.pack P = some [s.chunkBytes (s.chunkCount P) 0 []] := by
    apply StreamSnapshot.pack_eq_some.mpr
    rw [hparts]
    exact ⟨rfl, by decide⟩
  refine ⟨s.chunkBytes (s.chunkCount P) 0 [], ?_, length_streamChunk s _ 0 []⟩
  change _ ∈ (s.pack P).getD []
  rw [hpack]
  exact List.mem_singleton_self _

theorem chunks_fit_iff (hP : Builds P) : AllSent P ↔ 76 ≤ P := by
  constructor
  · intro hall
    obtain ⟨chunk, hchunk, hlen⟩ := drop_reported P
    have hfits := (hall { enabled := true, drops := 1 } 7 7).1.fits chunk hchunk
    rcases builds_iff.mp hP with hsmall | hlarge
    · omega
    · exact hlarge
  · intro hlarge tel timestampNs now
    exact ⟨sent_of_fits (streamChunks_fit hlarge _), sent_of_fits (scriptChunks_fit hlarge _)⟩

theorem chunks_fit_default : AllSent 256 ↔ 76 ≤ 256 :=
  chunks_fit_iff ⟨by decide, by decide⟩

/-- A build with room for eight bytes passes both assertions. -/
theorem chunks_do_not_fit : Builds 8 ∧ ¬AllSent 8 := by
  refine ⟨⟨by decide, by decide⟩, fun hall => ?_⟩
  obtain ⟨chunk, hchunk, hlen⟩ := drop_reported 8
  have hfits := (hall { enabled := true, drops := 1 } 7 7).1.fits chunk hchunk
  omega

end Mawmaw.Server
