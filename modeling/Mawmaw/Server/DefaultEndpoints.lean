import Mawmaw.Server.Startup

/-!
# The configured endpoints and the default ones

* `madeEndpoint` : what a `[publisher]` section leads to; `defaultEndpoints` : what is added to them;
* `Registered` : the publisher's table after a list of endpoints; `createPublishers_registered`;
* `Survive`, `Clash` : each id leads to its own section's endpoint; a default takes an id over;
* `publishers_survive_iff`.
-/

namespace Mawmaw.Server
open Mawmaw.Lib Mawmaw.Conf Mawmaw.Core Mawmaw.Pub

variable {P : Nat}

/-! ## Sections and their endpoints -/

def publishers (cfg : Config) : List Section := cfg.ofType (lit "publisher")

/-- The endpoint of a section, where it can be made and opened. -/
def madeEndpoint (env : Environment P) (sec : Section) : Option Endpoint :=
  match makeEndpoint sec with
  | .error _ => none
  | .ok ep =>
    match env.openEndpoint ep with
    | .error _ => none
    | .ok () => some ep

/-- A telemetry endpoint was made of the section. -/
def madeTelemetry (env : Environment P) (sec : Section) : Bool :=
  (madeEndpoint env sec).isSome && sec.get (lit "type") == lit "telemetry"

def defaultTelemetry : Endpoint := .telemetryStdout (lit "telemetry")

/-- What is added to the endpoints of the sections. -/
def defaultEndpoints (env : Environment P) (cfg : Config) : List Endpoint :=
  if publishers cfg = [] then [.stdout (lit "stdout"), defaultTelemetry]
  else if (publishers cfg).any (madeTelemetry env) then [] else [defaultTelemetry]

theorem fits_of_madeEndpoint {env : Environment P} {sec : Section} {ep : Endpoint}
    (h : madeEndpoint env sec = some ep) : Fits sec ep := by
  unfold madeEndpoint at h
  split at h
  · cases h
  · next ep' hmake =>
    split at h
    · cases h
    · cases h
      exact makeEndpoint_fits hmake

/-! ## The publisher's table -/

/-- The publisher's table is made by the endpoints, in order. -/
def Registered (eps : List Endpoint) (s : PipelineState P) : Prop :=
  ∃ pub, s.router.publisher = some pub ∧ pub.endpoints = UMap.register Endpoint.name id ∅ eps

theorem registered_setUpRouter (cfg : Config) :
    Registered [] ({ router := setUpRouter cfg } : PipelineState P) :=
  ⟨{ telemetry := true }, rfl, rfl⟩

theorem Registered.log {eps : List Endpoint} {s : PipelineState P} (h : Registered eps s)
    (line : Str) : Registered eps (s.log line) := h

theorem Registered.addEndpoint {eps : List Endpoint} {s : PipelineState P} (h : Registered eps s)
    (ep : Endpoint) : Registered (eps ++ [ep]) (s.addEndpoint ep) := by
  obtain ⟨pub, hpub, heps⟩ := h
  refine ⟨pub.addEndpoint ep, ?_, ?_⟩
  · unfold PipelineState.addEndpoint
    rw [hpub]
    rfl
  · rw [UMap.register_append, ← heps]
    rfl

/-- One section: its endpoint is added and the flag raised, or neither. -/
theorem registered_createPublisher {eps : List Endpoint} {s : PipelineState P}
    (h : Registered eps s) (env : Environment P) (flag : Bool) (sec : Section) :
    Registered (eps ++ (madeEndpoint env sec).toList) (createPublisher env (s, flag) sec).1
      ∧ (createPublisher env (s, flag) sec).2 = (flag || madeTelemetry env sec) := by
  unfold createPublisher madeTelemetry madeEndpoint
  cases hmake : makeEndpoint sec with
  | error e => exact ⟨by simpa using h.log _, by simp⟩
  | ok ep =>
      cases hopen : env.openEndpoint ep with
      | error e => exact ⟨by simpa [hopen] using h.log _, by simp [hopen]⟩
      | ok u => exact ⟨by simpa [hopen] using h.addEndpoint ep, by simp [hopen]⟩

theorem registered_foldl (env : Environment P) (secs : List Section)
    {eps : List Endpoint} {s : PipelineState P} (h : Registered eps s) (flag : Bool) :
    Registered (eps ++ secs.filterMap (madeEndpoint env))
        (secs.foldl (createPublisher env) (s, flag)).1
      ∧ (secs.foldl (createPublisher env) (s, flag)).2
        = (flag || secs.any (madeTelemetry env)) := by
  induction secs generalizing eps s flag with
  | nil => exact ⟨by simpa using h, by simp⟩
  | cons sec secs ih =>
      obtain ⟨hone, hflag⟩ := registered_createPublisher h env flag sec
      obtain ⟨hrest, hlast⟩ := ih hone (createPublisher env (s, flag) sec).2
      refine ⟨?_, ?_⟩
      · have hlist : (madeEndpoint env sec).toList ++ secs.filterMap (madeEndpoint env)
            = (sec :: secs).filterMap (madeEndpoint env) := by
          cases hmade : madeEndpoint env sec <;> simp [hmade]
        rw [List.append_assoc, hlist] at hrest
        exact hrest
      · rw [List.foldl_cons, List.any_cons, ← Bool.or_assoc, ← hflag]
        exact hlast

/-- The table after the sections and the defaults. -/
theorem createPublishers_registered (env : Environment P) (cfg : Config) :
    Registered ((publishers cfg).filterMap (madeEndpoint env) ++ defaultEndpoints env cfg)
      (createPublishers env cfg { router := setUpRouter cfg }) := by
  have hstart : Registered [] ({ router := setUpRouter cfg } : PipelineState P) :=
    registered_setUpRouter cfg
  unfold createPublishers defaultEndpoints publishers
  by_cases hnil : cfg.ofType (lit "publisher") = []
  · rw [hnil, if_pos rfl]
    exact ((hstart.log _).addEndpoint _).addEndpoint _
  · obtain ⟨hmade, hflag⟩ := registered_foldl env (cfg.ofType (lit "publisher")) hstart false
    obtain ⟨sec, secs, hsecs⟩ := List.exists_cons_of_ne_nil hnil
    rw [hsecs] at hmade hflag ⊢
    rw [Bool.false_or] at hflag
    rw [if_neg (List.cons_ne_nil sec secs)]
    simp only [hflag]
    by_cases htel : (sec :: secs).any (madeTelemetry env) = true
    · rw [if_pos htel, if_pos htel, List.append_nil]
      exact hmade
    · rw [if_neg htel, if_neg htel]
      exact hmade.addEndpoint _

/-! ## Ids -/

/-- The id of each section whose endpoint was made leads to that endpoint. -/
def Survive (env : Environment P) (cfg : Config) (s : PipelineState P) : Prop :=
  ∀ sec ∈ publishers cfg, ∀ ep, madeEndpoint env sec = some ep →
    ∃ pub, s.router.publisher = some pub ∧ pub.hasEndpoint (sec.get (lit "id")) = true
      ∧ pub.endpoints.lookup (sec.get (lit "id")) = some ep

/-- An endpoint is made of a section with the id `telemetry`, and none of a section with the type
`telemetry`. -/
def Clash (env : Environment P) (cfg : Config) : Prop :=
  (∃ sec ∈ publishers cfg, (madeEndpoint env sec).isSome ∧ sec.get (lit "id") = lit "telemetry")
    ∧ ∀ sec ∈ publishers cfg, (madeEndpoint env sec).isSome →
      sec.get (lit "type") ≠ lit "telemetry"

/-- The ids that are given are different. -/
def DistinctIds (cfg : Config) : Prop :=
  (((publishers cfg).map fun sec => sec.get (lit "id")).filter fun id => !id.isEmpty).Nodup

theorem names_sublist (env : Environment P) (secs : List Section) :
    ((secs.filterMap (madeEndpoint env)).map Endpoint.name).Sublist
      ((secs.map fun sec => sec.get (lit "id")).filter fun id => !id.isEmpty) := by
  induction secs with
  | nil => exact List.Sublist.slnil
  | cons sec secs ih =>
      rw [List.map_cons]
      cases hmade : madeEndpoint env sec with
      | none =>
          rw [List.filterMap_cons_none hmade]
          exact ih.trans ((List.sublist_cons_self _ _).filter _)
      | some ep =>
          obtain ⟨hname, hid, -⟩ := fits_of_madeEndpoint hmade
          rw [List.filterMap_cons_some hmade, List.map_cons, hname,
            List.filter_cons_of_pos (by simpa using hid)]
          exact ih.cons_cons _

theorem nodup_names (env : Environment P) {cfg : Config} (h : DistinctIds cfg) :
    (((publishers cfg).filterMap (madeEndpoint env)).map Endpoint.name).Nodup :=
  h.sublist (names_sublist env (publishers cfg))

theorem mem_made {env : Environment P} {cfg : Config} {sec : Section} {ep : Endpoint}
    (hsec : sec ∈ publishers cfg) (hmade : madeEndpoint env sec = some ep) :
    ep ∈ (publishers cfg).filterMap (madeEndpoint env) :=
  List.mem_filterMap.mpr ⟨sec, hsec, hmade⟩

theorem any_madeTelemetry_iff {env : Environment P} {cfg : Config} :
    (publishers cfg).any (madeTelemetry env) = true
      ↔ ∃ sec ∈ publishers cfg, (madeEndpoint env sec).isSome
        ∧ sec.get (lit "type") = lit "telemetry" := by
  simp only [List.any_eq_true, madeTelemetry, Bool.and_eq_true, beq_iff_eq]

/-- The defaults behind a section's endpoint take its id over in a clash only. -/
theorem nodup_all_names {env : Environment P} {cfg : Config} (h : DistinctIds cfg)
    {sec : Section} (hsec : sec ∈ publishers cfg) (hclash : ¬Clash env cfg) :
    (((publishers cfg).filterMap (madeEndpoint env) ++ defaultEndpoints env cfg).map
      Endpoint.name).Nodup := by
  have hne : publishers cfg ≠ [] := List.ne_nil_of_mem hsec
  unfold defaultEndpoints
  rw [if_neg hne]
  split
  · rw [List.append_nil]
    exact nodup_names env h
  · next hnone =>
    rw [any_madeTelemetry_iff] at hnone
    have hfresh : lit "telemetry" ∉ ((publishers cfg).filterMap (madeEndpoint env)).map
        Endpoint.name := by
      intro hmem
      obtain ⟨ep, hep, hname⟩ := List.mem_map.mp hmem
      obtain ⟨sec', hsec', hmade⟩ := List.mem_filterMap.mp hep
      have hsome : (madeEndpoint env sec').isSome := by rw [hmade]; rfl
      refine hclash ⟨⟨sec', hsec', hsome, ?_⟩, fun sec'' hsec'' hmade'' htype =>
        hnone ⟨sec'', hsec'', hmade'', htype⟩⟩
      rw [← (fits_of_madeEndpoint hmade).1, hname]
    rw [List.map_append]
    refine List.Nodup.append (nodup_names env h) (List.nodup_singleton _) ?_
    exact List.disjoint_singleton.mpr hfresh

/-- With different ids, the configured endpoints stay unless the default telemetry endpoint takes
over the id of one of another type. -/
theorem publishers_survive_iff (env : Environment P) (cfg : Config) (hids : DistinctIds cfg) :
    Survive env cfg (createPublishers env cfg { router := setUpRouter cfg })
      ↔ ¬Clash env cfg := by
  obtain ⟨pub, hpub, heps⟩ := createPublishers_registered env cfg
  constructor
  · rintro hsurvive ⟨⟨sec, hsec, hsome, hid⟩, htypes⟩
    obtain ⟨ep, hmade⟩ := Option.isSome_iff_exists.mp hsome
    obtain ⟨pub', hpub', -, hlook⟩ := hsurvive sec hsec ep hmade
    obtain rfl : pub = pub' := Option.some.inj (hpub.symm.trans hpub')
    have hdefault : defaultEndpoints env cfg = [defaultTelemetry] := by
      unfold defaultEndpoints
      rw [if_neg (List.ne_nil_of_mem hsec), if_neg]
      rw [any_madeTelemetry_iff]
      rintro ⟨sec', hsec', hmade', htype⟩
      exact htypes sec' hsec' hmade' htype
    rw [heps, hdefault, UMap.register_append, hid] at hlook
    have hsame : defaultTelemetry = ep :=
      Option.some.inj ((AList.lookup_insert _).symm.trans hlook)
    exact htypes sec hsec hsome ((fits_of_madeEndpoint hmade).2.2 _ hsame.symm)
  · intro hclash sec hsec ep hmade
    have hlook : pub.endpoints.lookup (sec.get (lit "id")) = some ep := by
      have hmem := List.mem_append_left (defaultEndpoints env cfg) (mem_made hsec hmade)
      rw [heps, ← (fits_of_madeEndpoint hmade).1]
      exact UMap.lookup_register_of_mem Endpoint.name id hmem fun ep' hep' hname =>
        List.inj_on_of_nodup_map (nodup_all_names hids hsec hclash) hep' hmem hname
    refine ⟨pub, hpub, ?_, hlook⟩
    unfold Publisher.hasEndpoint
    rw [hlook]
    rfl

/-- Every endpoint opens; nothing else loads. -/
def openingEnv : Environment 1 where
  openEndpoint _ := .ok ()
  loadPython _ _ := .error (lit "no engine")
  loadWasm _ _ := .error (lit "no engine")
  loadPlugin _ := .error (lit "no plugin")

def publisherSection (id type path : Str) : Section where
  type := lit "publisher"
  kv := (((∅ : UMap Str Str).insert (lit "id") id).insert (lit "type") type).insert
    (lit "path") path

def fileAndDashboard : Config where
  sections :=
    [publisherSection (lit "alerts") (lit "file") (lit "alerts.log"),
      publisherSection (lit "dash") (lit "telemetry") []]

theorem publishers_survive_two :
    Survive openingEnv fileAndDashboard
      (createPublishers openingEnv fileAndDashboard { router := setUpRouter fileAndDashboard }) := by
  have hids : DistinctIds fileAndDashboard := by
    unfold DistinctIds
    decide +kernel
  apply (publishers_survive_iff openingEnv fileAndDashboard hids).mpr
  rintro ⟨-, htypes⟩
  have hmem : publisherSection (lit "dash") (lit "telemetry") [] ∈ publishers fileAndDashboard :=
    .tail _ (.head _)
  exact htypes _ hmem (by decide +kernel) (by decide +kernel)

def fileNamedTelemetry : Config where
  sections := [publisherSection (lit "telemetry") (lit "file") (lit "t.log")]

/-- The file's id leads to the default endpoint. -/
theorem publishers_replaced :
    DistinctIds fileNamedTelemetry
      ∧ madeEndpoint openingEnv (publisherSection (lit "telemetry") (lit "file") (lit "t.log"))
        = some (.file (lit "telemetry") (lit "t.log"))
      ∧ (∃ pub, (createPublishers openingEnv fileNamedTelemetry
            { router := setUpRouter fileNamedTelemetry }).router.publisher = some pub
        ∧ pub.endpoints.lookup (lit "telemetry") = some (.telemetryStdout (lit "telemetry")))
      ∧ ¬∀ (env : Environment 1) (cfg : Config), DistinctIds cfg →
        Survive env cfg (createPublishers env cfg { router := setUpRouter cfg }) := by
  have hids : DistinctIds fileNamedTelemetry := by
    unfold DistinctIds
    decide +kernel
  have hmade : madeEndpoint openingEnv
      (publisherSection (lit "telemetry") (lit "file") (lit "t.log"))
      = some (.file (lit "telemetry") (lit "t.log")) := by decide +kernel
  have htable : ∃ pub, (createPublishers openingEnv fileNamedTelemetry
        { router := setUpRouter fileNamedTelemetry }).router.publisher = some pub
      ∧ pub.endpoints.lookup (lit "telemetry") = some (.telemetryStdout (lit "telemetry")) :=
    ⟨_, rfl, by decide +kernel⟩
  refine ⟨hids, hmade, htable, fun h => ?_⟩
  obtain ⟨pub, hpub, hlook⟩ := htable
  obtain ⟨pub', hpub', -, hlook'⟩ := h openingEnv fileNamedTelemetry hids _ (.head _) _ hmade
  obtain rfl : pub = pub' := Option.some.inj (hpub.symm.trans hpub')
  have hid : (publisherSection (lit "telemetry") (lit "file") (lit "t.log")).get (lit "id")
      = lit "telemetry" := by decide +kernel
  rw [hid, hlook] at hlook'
  cases hlook'

end Mawmaw.Server
