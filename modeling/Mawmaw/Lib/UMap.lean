import Mathlib.Algebra.Order.Ring.Int
import Mathlib.Data.List.AList
import Mathlib.Data.List.Induction

/-!
# Unordered maps

`UMap κ ν` : a finite map with one value for each key, an `AList` with constant value type. The
order of its entries stands for the iteration order, which an unordered map does not specify: a
statement about every `UMap` holds for every iteration order. `register` : entries put in one after
the other; the last one of a key stays (`lookup_register`).
-/

namespace Mawmaw.Lib

abbrev UMap (κ ν : Type) := AList fun _ : κ => ν

namespace UMap
variable {κ ν : Type} [DecidableEq κ]

/-- The entries as pairs, in iteration order. -/
def toPairs (m : UMap κ ν) : List (κ × ν) := m.entries.map fun e => (e.1, e.2)

/-- `m[k]` as an lvalue read: a missing key reads as `d`. -/
def getD (m : UMap κ ν) (k : κ) (d : ν) : ν := (m.lookup k).getD d

/-- The map built by inserting `f k v` for the entries of `m` where it is defined. -/
def collect {μ : Type} (m : UMap κ ν) (f : κ → ν → Option μ) : UMap κ μ :=
  m.foldl (fun acc k v => (f k v).elim acc fun x => acc.insert k x) ∅

theorem lookup_foldl_collect {μ : Type} (f : κ → ν → Option μ) (k : κ) :
    ∀ (es : List (Sigma fun _ : κ => ν)) (acc : UMap κ μ), es.NodupKeys →
      (es.foldl (fun acc e => (f e.1 e.2).elim acc fun x => acc.insert e.1 x) acc).lookup k
        = ((es.dlookup k).bind (f k)).or (acc.lookup k)
  | [], acc, _ => by simp
  | ⟨k', v⟩ :: es, acc, hd => by
    have hnot : k' ∉ es.keys := (List.nodupKeys_cons.mp hd).1
    rw [List.foldl_cons, lookup_foldl_collect f k es _ (List.nodupKeys_cons.mp hd).2]
    by_cases hk : k = k'
    · subst hk
      rw [List.dlookup_eq_none.mpr hnot, List.dlookup_cons_eq]
      cases hf : f k v <;> simp [hf, AList.lookup_insert]
    · rw [List.dlookup_cons_ne _ _ hk]
      cases hf : f k' v <;> simp [AList.lookup_insert_ne hk]

theorem lookup_collect {μ : Type} (m : UMap κ ν) (f : κ → ν → Option μ) (k : κ) :
    (m.collect f).lookup k = (m.lookup k).bind (f k) := by
  have h := lookup_foldl_collect f k m.entries ∅ m.nodupKeys
  rw [AList.lookup_empty, Option.or_none] at h
  exact h

theorem lookup_of_mem_toPairs {m : UMap κ ν} {e : κ × ν} (h : e ∈ m.toPairs) :
    m.lookup e.1 = some e.2 := by
  obtain ⟨entry, hentry, rfl⟩ := List.mem_map.mp h
  exact AList.mem_lookup_iff.mpr hentry

/-- A key has one entry among the pairs. -/
theorem filter_toPairs {m : UMap κ ν} {k : κ} {v : ν} (h : m.lookup k = some v) :
    m.toPairs.filter (fun e => e.1 = k) = [(k, v)] := by
  have hentries : ∀ es : List (Sigma fun _ : κ => ν), es.NodupKeys → es.dlookup k = some v →
      (es.map fun e => (e.1, e.2)).filter (fun e => e.1 = k) = [(k, v)] := by
    intro es
    induction es with
    | nil =>
        intro _ hlook
        cases hlook
    | cons e es ih =>
        intro hd hlook
        have hnot : e.1 ∉ es.keys := (List.nodupKeys_cons.mp hd).1
        by_cases hk : k = e.1
        · subst hk
          have hrest : (es.map fun e' => (e'.1, e'.2)).filter (fun e' => e'.1 = e.1) = [] := by
            simp only [List.filter_map, List.map_eq_nil_iff, List.filter_eq_nil_iff]
            intro e' he' heq
            have heq' : e'.1 = e.1 := by simpa using heq
            exact hnot (heq' ▸ List.mem_map_of_mem he')
          have hv : e.2 = v := by
            have := hlook
            rw [List.dlookup_cons_eq] at this
            exact Option.some.inj this
          rw [List.map_cons, List.filter_cons_of_pos (by simp), hrest, hv]
        · rw [List.map_cons, List.filter_cons_of_neg (by simpa using Ne.symm hk)]
          rw [List.dlookup_cons_ne _ _ hk] at hlook
          exact ih (List.nodupKeys_cons.mp hd).2 hlook
  exact hentries m.entries m.nodupKeys h

theorem flatMap_ite_nil {α β : Type} (p : α → Prop) [DecidablePred p] (g : α → List β)
    (xs : List α) :
    (xs.flatMap fun x => if p x then g x else []) = (xs.filter fun x => p x).flatMap g := by
  induction xs with
  | nil => rfl
  | cons x xs ih =>
      rw [List.flatMap_cons, ih]
      by_cases hx : p x <;> simp [hx]

/-- What the entries of one key contribute to a list made over all of them. -/
theorem flatMap_toPairs {α : Type} (m : UMap κ ν) (k : κ) (g : ν → List α) :
    (m.toPairs.flatMap fun e => if e.1 = k then g e.2 else []) = (m.lookup k).elim [] g := by
  rw [flatMap_ite_nil]
  cases hlook : m.lookup k with
  | some v => simp [filter_toPairs hlook]
  | none =>
      have hnot : m.toPairs.filter (fun e => e.1 = k) = [] := by
        rw [List.filter_eq_nil_iff]
        intro e he hk
        obtain ⟨e', he', rfl⟩ := List.mem_map.mp he
        have hkey : e'.1 = k := by simpa using hk
        apply AList.lookup_eq_none.mp hlook
        rw [← hkey]
        exact List.mem_map_of_mem he'
      rw [hnot]
      rfl

/-! ## Registering -/

section Register
variable {α : Type} (key : α → κ) (val : α → ν)

/-- Entries put in one after the other. -/
def register (m : UMap κ ν) (xs : List α) : UMap κ ν :=
  xs.foldl (fun m x => m.insert (key x) (val x)) m

theorem register_append (m : UMap κ ν) (xs : List α) (x : α) :
    register key val m (xs ++ [x]) = (register key val m xs).insert (key x) (val x) := by
  rw [register, List.foldl_append]
  rfl

/-- The last value of a key stays. -/
theorem lookup_register (m : UMap κ ν) (xs : List α) (k : κ) :
    (register key val m xs).lookup k
      = ((xs.reverse.find? fun x => key x = k).map val).or (m.lookup k) := by
  induction xs using List.reverseRecOn with
  | nil => rfl
  | append_singleton xs x ih =>
      rw [register_append, List.reverse_append, List.reverse_singleton, List.singleton_append]
      by_cases hk : key x = k
      · subst hk
        rw [AList.lookup_insert, List.find?_cons_of_pos (by simp), Option.map_some, Option.some_or]
      · rw [AList.lookup_insert_ne (Ne.symm hk), List.find?_cons_of_neg (by simpa using hk), ih]

/-- The value of a key that all entries of the key agree on. -/
theorem lookup_register_of_mem {m : UMap κ ν} {xs : List α} {x : α} (hx : x ∈ xs)
    (hsame : ∀ y ∈ xs, key y = key x → val y = val x) :
    (register key val m xs).lookup (key x) = some (val x) := by
  obtain ⟨y, hfind⟩ : ∃ y, (xs.reverse.find? fun y => key y = key x) = some y := by
    rw [← Option.isSome_iff_exists, List.find?_isSome]
    exact ⟨x, List.mem_reverse.mpr hx, by simp⟩
  have hkey : key y = key x := by simpa using List.find?_some hfind
  have hmem : y ∈ xs := List.mem_reverse.mp (List.mem_of_find?_eq_some hfind)
  rw [lookup_register, hfind, Option.map_some, Option.some_or, hsame y hmem hkey]

end Register

end UMap

end Mawmaw.Lib
