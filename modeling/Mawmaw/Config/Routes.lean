import Mawmaw.Config.Parse

/-!
# The routes of a configuration text

* `routeEntry` : the entry for a list of targets, none for the empty one;
* `Holds routes targets` : the table a list of targets for each stream makes; kept by `addRoute`;
* `lookup_parseRoutes` : the table made from the parsed sections;
* `parseRoutes_declared_iff` : against the lines of the text.
-/

namespace Mawmaw.Conf
open Mawmaw.Lib

def routeEntry (targets : List Str) : Option (List Str) :=
  if targets.isEmpty then none else some targets

/-- The table has an entry for each stream with targets, and no other. -/
def Holds (routes : UMap Str (List Str)) (targets : Str → List Str) : Prop :=
  ∀ s, routes.lookup s = routeEntry (targets s)

theorem Holds.getD {routes : UMap Str (List Str)} {targets : Str → List Str}
    (h : Holds routes targets) (s : Str) : UMap.getD routes s [] = targets s := by
  rw [UMap.getD, h s, routeEntry]
  cases targets s <;> rfl

theorem Holds.addRoute {routes : UMap Str (List Str)} {targets : Str → List Str}
    (h : Holds routes targets) (key val : Str) :
    Holds (addRoute routes key val)
      fun s => targets s ++ if key = s then splitComma val else [] := by
  intro s
  unfold Conf.addRoute
  by_cases hempty : (splitComma val).isEmpty = true
  · have hnil := List.isEmpty_iff.mp hempty
    simp only [hnil, List.isEmpty_nil, if_true, ite_self, List.append_nil]
    exact h s
  · have hne : splitComma val ≠ [] := fun hnil => hempty (by rw [hnil]; rfl)
    simp only [if_neg hempty]
    by_cases hs : key = s
    · subst hs
      rw [AList.lookup_insert, h.getD, if_pos rfl, routeEntry, if_neg]
      simp [hne]
    · rw [AList.lookup_insert_ne (Ne.symm hs), if_neg hs, List.append_nil]
      exact h s

theorem Holds.addRoutes (kvs : List (Str × Str)) {routes : UMap Str (List Str)}
    {targets : Str → List Str} (h : Holds routes targets) :
    Holds (kvs.foldl (fun routes kv => Conf.addRoute routes kv.1 kv.2) routes)
      fun s => targets s ++ kvs.flatMap fun kv => if kv.1 = s then splitComma kv.2 else [] := by
  induction kvs generalizing routes targets with
  | nil => simpa using h
  | cons kv kvs ih => simpa [List.append_assoc] using ih (h.addRoute kv.1 kv.2)

theorem Holds.addSections (secs : List Section) {routes : UMap Str (List Str)}
    {targets : Str → List Str} (h : Holds routes targets) :
    Holds (secs.foldl (fun routes sec =>
        sec.kv.toPairs.foldl (fun routes kv => Conf.addRoute routes kv.1 kv.2) routes) routes)
      fun s => targets s ++ secs.flatMap fun sec => (sec.kv.lookup s).elim [] splitComma := by
  induction secs generalizing routes targets with
  | nil => simpa using h
  | cons sec secs ih =>
      have hsec := ih (h.addRoutes sec.kv.toPairs)
      simp only [UMap.flatMap_toPairs, List.append_assoc] at hsec
      simpa using hsec

theorem routeTargets_eq_ofType (cfg : Config) (s : Str) :
    cfg.routeTargets s = (cfg.ofType (lit "routes")).flatMap fun sec =>
      (sec.kv.lookup s).elim [] splitComma := by
  unfold Config.routeTargets Config.ofType Section.routeTargets isRoutes
  induction cfg.sections with
  | nil => rfl
  | cons sec secs ih =>
      rw [List.flatMap_cons, ih]
      by_cases hsec : (sec.type == lit "routes") = true <;> simp [hsec]

theorem lookup_parseRoutes (cfg : Config) (s : Str) :
    (parseRoutes cfg).lookup s = routeEntry (cfg.routeTargets s) := by
  have hfresh : Holds ∅ fun _ => [] := fun s => AList.lookup_empty s
  rw [routeTargets_eq_ofType]
  exact hfresh.addSections (cfg.ofType (lit "routes")) s

/-- **The routing table of a text.** For a text that is accepted, a stream is mapped to the targets
that its route lines declare, in textual order, exactly if its name is not one of the keys that are
stored apart or it has no target. -/
theorem parseRoutes_declared_iff {path text : Str} {cfg : Config}
    (h : parse path (some text) = .ok cfg) (s : Str) :
    (parseRoutes cfg).lookup s = routeEntry (declaredTargets text s)
      ↔ isMultiKey s = false ∨ declaredTargets text s = [] := by
  rw [lookup_parseRoutes, parse_routeTargets h s]
  cases hs : isMultiKey s with
  | false => simp
  | true =>
      unfold routeEntry
      cases declaredTargets text s <;> simp

/-- A stream named as one of those keys. -/
def emitsRoute : Str := lit "[routes]" ++ [newline] ++ lit "emits = a, b" ++ [newline]

theorem parseRoutes_declared_iff_emits :
    ∃ cfg, parse (lit "c") (some emitsRoute) = .ok cfg ∧
      ((parseRoutes cfg).lookup (lit "emits") = routeEntry (declaredTargets emitsRoute (lit "emits"))
        ↔ isMultiKey (lit "emits") = false ∨ declaredTargets emitsRoute (lit "emits") = []) :=
  ⟨_, rfl, parseRoutes_declared_iff (show parse (lit "c") (some emitsRoute) = _ from rfl)
    (lit "emits")⟩

theorem parseRoutes_emits : ∃ cfg, parse (lit "c") (some emitsRoute) = .ok cfg ∧
    (parseRoutes cfg).lookup (lit "emits")
      ≠ routeEntry (declaredTargets emitsRoute (lit "emits")) := by
  refine ⟨_, rfl, ?_⟩
  decide +kernel

end Mawmaw.Conf
