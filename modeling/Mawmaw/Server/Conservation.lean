import Mathlib.Data.UInt
import Mawmaw.Lib.Tally
import Mawmaw.Lib.TaskSystem
import Mawmaw.Server.Counting
import Mawmaw.Server.Startup

/-!
# Counts are conserved

* `Measure` : what a map of counters is worth: one stream's counter, or their sum;
* `balance` : packed, plus what the counters hold, minus what was recorded;
* `Effect.balance` : an action moves the balance into what its thread holds, or back;
* `Logged` : the logs of finished calls against what the endpoints were given and what was routed;
* `counts_conserved` : after every run.
-/

namespace Mawmaw.Core.Telemetry
open Mawmaw.Lib

/-! ## Counter by counter -/

theorem getD_bump (counts : UMap Str UInt64) (streamId k : Str) :
    UMap.getD (bump counts streamId) k 0
      = UMap.getD counts k 0 + UMap.getD (AList.singleton streamId 1) k 0 := by
  rw [bump, UMap.getD_insert, UMap.getD_singleton]
  split
  · rename_i hk
    rw [hk]
  · rw [UInt64.add_zero]

theorem getD_takeCounts (counts : UMap Str UInt64) (k : Str) :
    UMap.getD (takeCounts counts) k 0 = UMap.getD counts k 0 := by
  rw [takeCounts, UMap.getD_collect, UMap.getD]
  cases counts.lookup k with
  | none => rfl
  | some v =>
      by_cases hv : v > 0
      · simp [hv]
      · have hzero : v = 0 := UInt64.le_antisymm (UInt64.not_lt.mp hv) UInt64.zero_le
        simp [hzero]

theorem getD_zeroCounts (counts : UMap Str UInt64) (k : Str) :
    UMap.getD (zeroCounts counts) k 0 = 0 := by
  rw [zeroCounts, UMap.getD_collect]
  cases counts.lookup k <;> rfl

theorem getD_addCounts (combined counts : UMap Str UInt64) (k : Str) :
    UMap.getD (addCounts combined counts) k 0
      = UMap.getD combined k 0 + UMap.getD counts k 0 := by
  have hpairs : ∀ (l : List (Str × UInt64)) (m : UMap Str UInt64),
      UMap.getD (l.foldl (fun m kv => m.insert kv.1 (UMap.getD m kv.1 0 + kv.2)) m) k 0
        = UMap.getD m k 0 + ((l.filter fun e => e.1 = k).map (·.2)).sum := by
    intro l
    induction l with
    | nil =>
        intro m
        simp
    | cons e l ih =>
        intro m
        rw [List.foldl_cons, ih, UMap.getD_insert]
        by_cases hk : e.1 = k
        · rw [if_pos hk.symm, List.filter_cons_of_pos (by simpa using hk), List.map_cons,
            List.sum_cons, hk, add_assoc]
        · rw [if_neg (Ne.symm hk), List.filter_cons_of_neg (by simpa using hk)]
  rw [addCounts, hpairs, UMap.sum_filter_toPairs]

theorem sumCounts_eq_total (counts : UMap Str UInt64) : sumCounts counts = counts.total := by
  have hfold : ∀ (l : List (Str × UInt64)) (a : UInt64),
      l.foldl (fun total kv => total + kv.2) a = a + (l.map (·.2)).sum := by
    intro l
    induction l with
    | nil =>
        intro a
        simp
    | cons e l ih =>
        intro a
        rw [List.foldl_cons, ih, List.map_cons, List.sum_cons, add_assoc]
  rw [sumCounts, hfold, UMap.total]
  exact UInt64.zero_add _

theorem mem_addCounts {combined counts : UMap Str UInt64} {k : Str}
    (h : k ∈ combined ∨ k ∈ counts) : k ∈ addCounts combined counts := by
  have hpairs : ∀ (l : List (Str × UInt64)) (m : UMap Str UInt64),
      k ∈ m ∨ k ∈ l.map (·.1) →
      k ∈ l.foldl (fun m kv => m.insert kv.1 (UMap.getD m kv.1 0 + kv.2)) m := by
    intro l
    induction l with
    | nil =>
        intro m hk
        simpa using hk
    | cons e l ih =>
        intro m hk
        rw [List.foldl_cons]
        refine ih _ ?_
        rw [List.map_cons, List.mem_cons] at hk
        rw [AList.mem_insert]
        tauto
  refine hpairs counts.toPairs combined (h.imp_right fun hk => ?_)
  obtain ⟨e, he, hek⟩ := List.mem_map.mp (AList.mem_keys.mp hk)
  exact List.mem_map.mpr ⟨(e.1, e.2), List.mem_map_of_mem he, hek⟩

/-- A counter that was drained has an entry. -/
theorem toPairs_addCounts {combined counts : UMap Str UInt64}
    (h : (addCounts combined counts).toPairs = []) :
    combined.toPairs = [] ∧ counts.toPairs = [] := by
  rw [UMap.toPairs_eq_nil] at h
  refine ⟨UMap.toPairs_eq_nil.mpr fun k hk => ?_, UMap.toPairs_eq_nil.mpr fun k hk => ?_⟩
  · exact h k (mem_addCounts (Or.inl hk))
  · exact h k (mem_addCounts (Or.inr hk))

end Mawmaw.Core.Telemetry

namespace Mawmaw.Server
open Mawmaw.Lib Mawmaw.Core Mawmaw.Pub Mawmaw.Conf

variable {P : Nat}

/-! ## What counters are worth -/

/-- A value of counter maps to which one more of a stream adds the stream's weight. -/
structure Measure where
  of : UMap Str UInt64 → UInt64
  weight : Str → UInt64
  empty : of ∅ = 0
  bump : ∀ counts streamId, of (Telemetry.bump counts streamId) = of counts + weight streamId
  take : ∀ counts, of (Telemetry.takeCounts counts) = of counts
  zero : ∀ counts, of (Telemetry.zeroCounts counts) = 0

namespace Measure

def atStream (sid : Str) : Measure where
  of counts := UMap.getD counts sid 0
  weight streamId := if sid = streamId then 1 else 0
  empty := UMap.getD_empty sid 0
  bump counts streamId := by rw [Telemetry.getD_bump, UMap.getD_singleton]
  take counts := Telemetry.getD_takeCounts counts sid
  zero counts := Telemetry.getD_zeroCounts counts sid

def total : Measure where
  of counts := counts.total
  weight _ := 1
  empty := rfl
  bump counts streamId := by
    rw [UMap.total_add (Telemetry.getD_bump counts streamId), UMap.total_singleton]
  take counts := UMap.total_congr (Telemetry.getD_takeCounts counts)
  zero counts := UMap.total_zero (Telemetry.getD_zeroCounts counts)

def none : Measure where
  of _ := 0
  weight _ := 0
  empty := rfl
  bump _ _ := (UInt64.add_zero 0).symm
  take _ := rfl
  zero _ := rfl

/-- What the calls on `streams` are worth; those on the streams of the metrics are not counted. -/
def credit (μ : Measure) (streams : List Str) : UInt64 :=
  ((streams.filter fun sid => !Telemetry.isOwnStream sid).map μ.weight).sum

theorem credit_append (μ : Measure) (streams : List Str) {sid : Str}
    (h : Telemetry.isOwnStream sid = false) :
    μ.credit (streams ++ [sid]) = μ.credit streams + μ.weight sid := by
  rw [credit, List.filter_append, List.filter_cons_of_pos (by simp [h]), List.filter_nil,
    List.map_append, List.sum_append, List.map_singleton, List.sum_singleton, credit]

theorem credit_append_own (μ : Measure) (streams : List Str) {sid : Str}
    (h : Telemetry.isOwnStream sid = true) : μ.credit (streams ++ [sid]) = μ.credit streams := by
  rw [credit, List.filter_append, List.filter_cons_of_neg (by simp [h]), List.filter_nil,
    List.append_nil, credit]

end Measure

/-! ## The balance -/

namespace CountAct

/-- What the thread of the action holds between the drains of a pack. -/
def held (ev em : Measure) : CountAct P → UInt64
  | .packEmitted _ eventSnap => ev.of eventSnap
  | .packDrops _ eventSnap emittedSnap => ev.of eventSnap + em.of emittedSnap
  | _ => 0

/-- The slow path is not reached for a stream that is not counted. -/
def Counted : CountAct P → Prop
  | .insertEvent sid | .insertEmitted sid => Telemetry.isOwnStream sid = false
  | _ => True

/-- A pack is between its drains. -/
def midPack : CountAct P → Bool
  | .packEmitted .. | .packDrops .. => true
  | _ => false

theorem held_eq_zero {a : CountAct P} (h : a.midPack = false) (ev em : Measure) :
    a.held ev em = 0 := by
  cases a with
  | packEmitted _ _ => cases h
  | packDrops _ _ _ => cases h
  | _ => rfl

end CountAct

/-- The snapshot is of what was drained, and the return value says whether there is one. -/
structure PackCall.Assembled (P : Nat) (p : PackCall) : Prop where
  snapshot : ∃ timestampNs drops, p.snapshot = assemble timestampNs p.eventSnap p.emittedSnap drops
  returned : p.returned = (p.snapshot.pack P).isSome

/-- A target other than an endpoint. -/
theorem routeTarget_no_endpoint {r : StreamRouter P} (ev : Event P) {id : Str}
    (h : ¬ ((r.handlers.lookup id).isNone && r.publisher.any (·.hasEndpoint id)) = true) :
    (r.routeTarget ev id).tel = r.tel ∧ (r.routeTarget ev id).publisher = r.publisher := by
  unfold StreamRouter.routeTarget
  split
  · exact ⟨rfl, rfl⟩
  · rename_i hhandler
    split
    · rename_i pub hpub
      have hnot : pub.hasEndpoint id = false := by simpa [hhandler, hpub] using h
      rw [if_neg (by simp [hnot])]
      exact ⟨rfl, rfl⟩
    · exact ⟨rfl, rfl⟩

/-- The telemetry is on, and the publisher counts into it. -/
structure Attached (r : StreamRouter P) : Prop where
  enabled : r.tel.enabled = true
  publisher : ∀ pub, r.publisher = some pub → pub.telemetry = true

namespace CountState

/-- Packed, plus what the counters hold, minus what was recorded. -/
def balance (ev em : Measure) (c : CountState P) : UInt64 :=
  (c.packs.map fun p => ev.of p.eventSnap + em.of p.emittedSnap).sum
    + (ev.of c.tel.eventCounts + em.of c.tel.emittedCounts)
    - (ev.credit c.recorded + em.credit c.delivered)

variable {c : CountState P}

theorem balance_bumpEvent (ev em : Measure) (c : CountState P) {sid : Str}
    (h : Telemetry.isOwnStream sid = false) :
    (c.bumpEvent sid).balance ev em = c.balance ev em := by
  have hcounts : ev.of (c.bumpEvent sid).tel.eventCounts
      = ev.of c.tel.eventCounts + ev.weight sid := ev.bump _ _
  rw [balance, hcounts, balance]
  simp only [bumpEvent, setTel, tel]
  rw [ev.credit_append _ h]
  grind

theorem balance_bumpEmitted (ev em : Measure) (c : CountState P) {sid : Str}
    (h : Telemetry.isOwnStream sid = false) :
    (c.bumpEmitted sid).balance ev em = c.balance ev em := by
  have hcounts : em.of (c.bumpEmitted sid).tel.emittedCounts
      = em.of c.tel.emittedCounts + em.weight sid := em.bump _ _
  rw [balance, hcounts, balance]
  simp only [bumpEmitted, setTel, tel]
  rw [em.credit_append _ h]
  grind

/-- `c'` has the counters and the finished calls of `c`, and its publisher counts as `c`'s does. -/
structure Same (c c' : CountState P) : Prop where
  tel : c'.tel = c.tel
  recorded : c'.recorded = c.recorded
  delivered : c'.delivered = c.delivered
  dropped : c'.dropped = c.dropped
  packs : c'.packs = c.packs
  publisher : ∀ pub', c'.router.publisher = some pub' →
    ∃ pub, c.router.publisher = some pub ∧ pub'.telemetry = pub.telemetry

theorem Same.refl (c : CountState P) : Same c c :=
  ⟨rfl, rfl, rfl, rfl, rfl, fun pub' h => ⟨pub', h, rfl⟩⟩

/-- All an action can do to the counters and the finished calls. -/
inductive Effect (c : CountState P) : CountAct P → CountState P → List (CountAct P) → Prop
  | quiet {a : CountAct P} {c' : CountState P} {as : List (CountAct P)} (ha : a.midPack = false)
      (hc' : Same c c') (has : ∀ b ∈ as, b.midPack = false ∧ b.Counted) : Effect c a c' as
  | recordOwn {a : CountAct P} (ha : a.midPack = false) {sid : Str}
      (hsid : Telemetry.isOwnStream sid = true) :
      Effect c a { c with recorded := c.recorded ++ [sid] } []
  | deliverOwn {a : CountAct P} (ha : a.midPack = false) {sid : Str}
      (hsid : Telemetry.isOwnStream sid = true) :
      Effect c a { c with delivered := c.delivered ++ [sid] } []
  | bumpEvent {a : CountAct P} (ha : a.midPack = false) {sid : Str}
      (hsid : Telemetry.isOwnStream sid = false) : Effect c a (c.bumpEvent sid) []
  | bumpEmitted {a : CountAct P} (ha : a.midPack = false) {sid : Str}
      (hsid : Telemetry.isOwnStream sid = false) : Effect c a (c.bumpEmitted sid) []
  | drop : Effect c .recordDrop
      { c.setTel { c.tel with drops := c.tel.drops + 1 } with dropped := c.dropped + 1 } []
  | packEvents (timestampNs : UInt64) : Effect c (.call (.pack timestampNs))
      (c.setTel { c.tel with eventCounts := Telemetry.zeroCounts c.tel.eventCounts })
      [.packEmitted timestampNs (Telemetry.takeCounts c.tel.eventCounts)]
  | packEmitted (timestampNs : UInt64) (eventSnap : UMap Str UInt64) :
      Effect c (.packEmitted timestampNs eventSnap)
        (c.setTel { c.tel with emittedCounts := Telemetry.zeroCounts c.tel.emittedCounts })
        [.packDrops timestampNs eventSnap (Telemetry.takeCounts c.tel.emittedCounts)]
  | packDrops (timestampNs : UInt64) (eventSnap emittedSnap : UMap Str UInt64) (snapshot)
      (hsnapshot : snapshot = assemble timestampNs eventSnap emittedSnap c.tel.drops) :
      Effect c (.packDrops timestampNs eventSnap emittedSnap)
        { c.setTel { c.tel with drops := 0 } with
          packs := c.packs ++ [⟨eventSnap, emittedSnap, snapshot, (snapshot.pack P).isSome⟩] } []

theorem same_routeTarget {ev : Event P} {id : Str}
    (h : ¬ ((c.router.handlers.lookup id).isNone && c.router.publisher.any (·.hasEndpoint id))
      = true) : Same c { c with router := c.router.routeTarget ev id } := by
  obtain ⟨htel, hpub⟩ := routeTarget_no_endpoint ev h
  exact ⟨htel, rfl, rfl, rfl, rfl, fun pub' h' => ⟨pub', hpub ▸ h', rfl⟩⟩

/-- A quiet action with nothing behind it, and with one action behind it. -/
theorem Effect.last {a : CountAct P} {c' : CountState P} (ha : a.midPack = false)
    (hc' : Same c c') : Effect c a c' [] := .quiet ha hc' (List.forall_mem_nil _)

theorem Effect.goesOn {a b : CountAct P} {c' : CountState P} (ha : a.midPack = false)
    (hc' : Same c c') (hb : b.midPack = false ∧ b.Counted) : Effect c a c' [b] :=
  .quiet ha hc' (List.forall_mem_singleton.mpr hb)

theorem perform_effect (hc : Attached c.router) {a : CountAct P} (ha : a.Counted) :
    Effect c a (c.perform a).1 (c.perform a).2 := by
  have henabled : c.tel.enabled = true := hc.enabled
  cases a with
  | call call =>
      cases call with
      | route event =>
          refine .quiet rfl (.refl c) fun b hb => ?_
          rw [perform] at hb
          cases htel : c.router.telemetry <;> simp [htel] at hb
          · rcases hb with rfl | rfl <;> exact ⟨rfl, trivial⟩
          · rcases hb with rfl | rfl | rfl <;> exact ⟨rfl, trivial⟩
      | pack timestampNs => exact .packEvents timestampNs
  | recordEvent sid =>
      rw [perform, henabled]
      cases hown : Telemetry.isOwnStream sid with
      | true => exact .recordOwn rfl hown
      | false =>
          cases c.tel.eventCounts.lookup sid with
          | some v => exact .bumpEvent rfl hown
          | none => exact .goesOn rfl (.refl c) ⟨rfl, hown⟩
  | insertEvent sid => exact .bumpEvent rfl ha
  | push event =>
      refine .quiet rfl (.refl c) fun b hb => ?_
      rw [perform] at hb
      cases hdropped : (c.router.registry.push event).dropped <;> simp [hdropped] at hb
      · obtain rfl := hb
        exact ⟨rfl, trivial⟩
      · rcases hb with rfl | rfl <;> exact ⟨rfl, trivial⟩
  | recordDrop =>
      have hdrop : c.tel.recordDrop = { c.tel with drops := c.tel.drops + 1 } := by
        simp [Telemetry.recordDrop, henabled]
      rw [perform, hdrop]
      exact .drop
  | write event =>
      exact .last rfl ⟨rfl, rfl, rfl, rfl, rfl, fun pub' h => ⟨pub', h, rfl⟩⟩
  | targets event =>
      refine .quiet rfl (.refl c) fun b hb => ?_
      obtain ⟨id, -, rfl⟩ := List.mem_map.mp hb
      exact ⟨rfl, trivial⟩
  | target event id =>
      rw [perform]
      split
      · exact .goesOn rfl (.refl c) ⟨rfl, trivial⟩
      · rename_i hnot
        exact .last rfl (same_routeTarget hnot)
  | publish event id =>
      rw [perform]
      cases hpub : c.router.publisher with
      | none => exact .last rfl (.refl c)
      | some pub =>
          have htel : pub.telemetry = true := hc.publisher pub hpub
          simp only [publish]
          cases hep : pub.endpoints.lookup id with
          | none => exact .last rfl (.refl c)
          | some ep =>
              simp only [htel, if_true]
              refine .goesOn rfl ⟨rfl, rfl, rfl, rfl, rfl, fun pub' h => ?_⟩ ⟨rfl, trivial⟩
              obtain rfl := Option.some.inj h
              exact ⟨pub, hpub, by simp [Publisher.publishTo, hep]⟩
  | recordEmitted sid =>
      rw [perform, henabled]
      cases hown : Telemetry.isOwnStream sid with
      | true => exact .deliverOwn rfl hown
      | false =>
          cases c.tel.emittedCounts.lookup sid with
          | some v => exact .bumpEmitted rfl hown
          | none => exact .goesOn rfl (.refl c) ⟨rfl, hown⟩
  | insertEmitted sid => exact .bumpEmitted rfl ha
  | packEmitted timestampNs eventSnap => exact .packEmitted timestampNs eventSnap
  | packDrops timestampNs eventSnap emittedSnap =>
      exact .packDrops timestampNs eventSnap emittedSnap _ rfl

namespace Effect
variable {a : CountAct P} {c' : CountState P} {as : List (CountAct P)}

/-- What an action takes out of the balance its thread holds, and the other way round. -/
theorem balance (h : Effect c a c' as) (ev em : Measure) :
    c'.balance ev em + (as.map (·.held ev em)).sum = c.balance ev em + a.held ev em := by
  cases h with
  | quiet ha hsame has =>
      have hheld : ((as.map (·.held ev em)).sum : UInt64) = 0 := by
        refine List.sum_eq_zero fun x hx => ?_
        obtain ⟨b, hb, rfl⟩ := List.mem_map.mp hx
        exact CountAct.held_eq_zero (has b hb).1 ev em
      rw [hheld, CountAct.held_eq_zero ha, CountState.balance, hsame.tel, hsame.recorded,
        hsame.delivered, hsame.packs, CountState.balance]
  | recordOwn ha hsid =>
      rw [CountAct.held_eq_zero ha, CountState.balance, ev.credit_append_own _ hsid,
        CountState.balance]
      rfl
  | deliverOwn ha hsid =>
      rw [CountAct.held_eq_zero ha, CountState.balance, em.credit_append_own _ hsid,
        CountState.balance]
      rfl
  | bumpEvent ha hsid =>
      rw [CountAct.held_eq_zero ha, balance_bumpEvent ev em c hsid]
      rfl
  | bumpEmitted ha hsid =>
      rw [CountAct.held_eq_zero ha, balance_bumpEmitted ev em c hsid]
      rfl
  | drop => rfl
  | packEvents timestampNs =>
      simp only [CountState.balance, CountAct.held, List.map_cons, List.map_nil, List.sum_cons,
        List.sum_nil, tel_setTel, ev.zero, ev.take]
      simp only [setTel]
      grind
  | packEmitted timestampNs eventSnap =>
      simp only [CountState.balance, CountAct.held, List.map_cons, List.map_nil, List.sum_cons,
        List.sum_nil, tel_setTel, em.zero, em.take]
      simp only [setTel]
      grind
  | packDrops timestampNs eventSnap emittedSnap snapshot hsnapshot =>
      simp only [CountState.balance, CountAct.held, List.map_append, List.map_cons, List.map_nil,
        List.sum_append, List.sum_cons, List.sum_nil]
      simp only [setTel, CountState.tel]
      grind

/-- What the packs took and what the counter of drops holds is what was dropped. -/
theorem drops (h : Effect c a c' as)
    (hc : (c.packs.map (·.snapshot.drops)).sum + c.tel.drops = UInt64.ofNat c.dropped) :
    (c'.packs.map (·.snapshot.drops)).sum + c'.tel.drops = UInt64.ofNat c'.dropped := by
  cases h with
  | quiet ha hsame has =>
      rw [hsame.packs, hsame.tel, hsame.dropped]
      exact hc
  | drop =>
      simp only [setTel, CountState.tel, UInt64.ofNat_add, UInt64.ofNat_one] at hc ⊢
      rw [← hc, UInt64.add_assoc]
  | packDrops timestampNs eventSnap emittedSnap snapshot hsnapshot =>
      subst hsnapshot
      simp only [setTel, CountState.tel, assemble, List.map_append, List.map_cons, List.map_nil,
        List.sum_append, List.sum_cons, List.sum_nil] at hc ⊢
      rw [← hc]
      grind
  | recordOwn _ _ | deliverOwn _ _ | bumpEvent _ _ | bumpEmitted _ _ | packEvents _
  | packEmitted _ _ => exact hc

theorem attached (h : Effect c a c' as) (hc : Attached c.router) : Attached c'.router := by
  cases h with
  | quiet ha hsame has =>
      refine ⟨?_, fun pub' hpub' => ?_⟩
      · have htel : c'.router.tel = c.router.tel := hsame.tel
        rw [htel]
        exact hc.enabled
      · obtain ⟨pub, hpub, htelemetry⟩ := hsame.publisher pub' hpub'
        rw [htelemetry]
        exact hc.publisher pub hpub
  | recordOwn _ _ | deliverOwn _ _ | bumpEvent _ _ | bumpEmitted _ _ | drop | packEvents _
  | packEmitted _ _ | packDrops _ _ _ _ _ => exact ⟨hc.enabled, hc.publisher⟩

theorem counted (h : Effect c a c' as) : ∀ b ∈ as, b.Counted := by
  intro b hb
  cases h with
  | quiet ha hsame has => exact (has b hb).2
  | packEvents timestampNs =>
      obtain rfl := List.mem_singleton.mp hb
      trivial
  | packEmitted timestampNs eventSnap =>
      obtain rfl := List.mem_singleton.mp hb
      trivial
  | recordOwn _ _ | deliverOwn _ _ | bumpEvent _ _ | bumpEmitted _ _ | drop
  | packDrops _ _ _ _ _ => cases hb

theorem packs (h : Effect c a c' as) (hc : ∀ p ∈ c.packs, p.Assembled P) :
    ∀ p ∈ c'.packs, p.Assembled P := by
  intro p hp
  cases h with
  | quiet ha hsame has =>
      rw [hsame.packs] at hp
      exact hc p hp
  | packDrops timestampNs eventSnap emittedSnap snapshot hsnapshot =>
      rcases List.mem_append.mp hp with hp | hp
      · exact hc p hp
      · obtain rfl := List.mem_singleton.mp hp
        exact ⟨⟨timestampNs, c.tel.drops, hsnapshot⟩, rfl⟩
  | recordOwn _ _ | deliverOwn _ _ | bumpEvent _ _ | bumpEmitted _ _ | drop | packEvents _
  | packEmitted _ _ => exact hc p hp

end Effect

end CountState

/-! ## The logs -/

/-- The stream of an event whose `record_event` call has still to end. -/
def CountAct.toRecord : CountAct P → Option Str
  | .call (.route ev) => some ev.stream
  | .recordEvent streamId | .insertEvent streamId => some streamId
  | _ => none

/-- The stream of a delivery that was made and has still to be counted. -/
def CountAct.toEmit : CountAct P → Option Str
  | .recordEmitted streamId | .insertEmitted streamId => some streamId
  | _ => none

/-- The streams of the events the publisher's endpoints were given. -/
def deliveredStreams (r : StreamRouter P) : Multiset Str :=
  ((r.delivered.map fun d => d.2.stream : List Str) : Multiset Str)

/-- What the endpoints were given since `r` was counted or has still to be; so with the events
`routed`, if the router has telemetry. -/
structure Logged (r : StreamRouter P) (routed : Multiset Str) (c : CountState P)
    (acts : Multiset (CountAct P)) : Prop where
  telemetry : c.router.telemetry = r.telemetry
  delivered : deliveredStreams c.router
    = deliveredStreams r + ((c.delivered : Multiset Str) + acts.filterMap CountAct.toEmit)
  recorded : r.telemetry = true →
    (c.recorded : Multiset Str) + acts.filterMap CountAct.toRecord = routed

namespace CountState
variable {c : CountState P}

/-- A target is neither counted nor delivered yet. -/
theorem filterMap_targets {f : CountAct P → Option Str} {ev : Event P}
    (h : ∀ id, f (.target ev id) = none) (ids : List Str) :
    ((ids.map (.target ev) : List (CountAct P)) : Multiset (CountAct P)).filterMap f = 0 := by
  have hnone : f ∘ CountAct.target ev = fun _ => none := funext h
  rw [Multiset.filterMap_coe, List.filterMap_map, hnone, List.filterMap_none]
  rfl

theorem perform_recorded (hc : c.router.telemetry = true) (a : CountAct P) :
    ((c.perform a).1.recorded : Multiset Str)
        + ((c.perform a).2 : Multiset (CountAct P)).filterMap CountAct.toRecord
      = (c.recorded : Multiset Str) + ({a} : Multiset (CountAct P)).filterMap CountAct.toRecord := by
  cases a with
  | call call =>
      cases call with
      | route ev =>
          rw [perform, if_pos hc]
          rfl
      | pack timestampNs => rfl
  | recordEvent sid =>
      simp only [perform]
      split
      · exact (add_zero _).trans (Multiset.coe_add c.recorded [sid]).symm
      · split
        · exact (add_zero _).trans (Multiset.coe_add c.recorded [sid]).symm
        · rfl
  | insertEvent sid => exact (add_zero _).trans (Multiset.coe_add c.recorded [sid]).symm
  | push ev =>
      simp only [perform]
      split <;> rfl
  | targets ev =>
      simp only [perform]
      rw [filterMap_targets fun _ => rfl]
      rfl
  | target ev id =>
      simp only [perform]
      split <;> rfl
  | publish ev id =>
      simp only [perform]
      split
      · rfl
      · unfold publish
        split
        · rfl
        · split <;> rfl
  | recordEmitted sid =>
      simp only [perform]
      split
      · rfl
      · split <;> rfl
  | recordDrop | write _ | insertEmitted _ | packEmitted _ _ | packDrops _ _ _ => rfl

/-- An endpoint is given an event, and the delivery is counted at once or has still to be. -/
theorem publish_delivered {pub : Publisher P} (hpub : c.router.publisher = some pub) (ev : Event P)
    (id : Str) :
    deliveredStreams (c.publish pub ev id).1.router + (c.delivered : Multiset Str)
      = deliveredStreams c.router + (((c.publish pub ev id).1.delivered : Multiset Str)
        + ((c.publish pub ev id).2 : Multiset (CountAct P)).filterMap CountAct.toEmit) := by
  unfold publish
  split
  · exact congrArg _ (add_zero _).symm
  · rename_i ep hep
    have hdelivered : (pub.publishTo c.tel ev id).1
        = { pub with delivered := pub.delivered ++ [(id, ev)] } :=
      Publisher.publishTo_of_hasEndpoint (Option.isSome_iff_exists.mpr ⟨ep, hep⟩)
    have hstreams : deliveredStreams
        { c.router with publisher := some (pub.publishTo c.tel ev id).1 }
          = deliveredStreams c.router + ([ev.stream] : List Str) := by
      rw [deliveredStreams, deliveredStreams, StreamRouter.delivered, StreamRouter.delivered,
        hdelivered, hpub, Option.map_some, Option.map_some, Option.getD_some, Option.getD_some,
        List.map_append, Multiset.coe_add]
      rfl
    split
    · show deliveredStreams { c.router with publisher := _ } + _ = _ + (_ + _)
      rw [hstreams, add_assoc]
      exact congrArg _ (add_comm _ _)
    · show deliveredStreams { c.router with publisher := _ } + _ = _ + (_ + 0)
      rw [hstreams, add_zero, ← Multiset.coe_add, add_assoc]
      exact congrArg _ (add_comm _ _)

/-- An endpoint is given an event, and then the delivery is counted. -/
theorem perform_delivered (c : CountState P) (a : CountAct P) :
    deliveredStreams (c.perform a).1.router
        + ((c.delivered : Multiset Str) + ({a} : Multiset (CountAct P)).filterMap CountAct.toEmit)
      = deliveredStreams c.router + (((c.perform a).1.delivered : Multiset Str)
        + ((c.perform a).2 : Multiset (CountAct P)).filterMap CountAct.toEmit) := by
  have hcounted : ∀ sid : Str, (c.delivered : Multiset Str) + ((([sid] : List Str)) : Multiset Str)
      = ((c.delivered ++ [sid] : List Str) : Multiset Str) + 0 :=
    fun sid => (Multiset.coe_add c.delivered [sid]).trans (add_zero _).symm
  cases a with
  | call call =>
      cases call with
      | route ev =>
          simp only [perform]
          split <;> rfl
      | pack timestampNs => rfl
  | recordEmitted sid =>
      simp only [perform]
      split
      · exact congrArg _ (hcounted sid)
      · split
        · exact congrArg _ (hcounted sid)
        · rfl
  | insertEmitted sid => exact congrArg _ (hcounted sid)
  | publish ev id =>
      simp only [perform]
      split
      · rfl
      · rename_i pub hpub
        exact (congrArg _ (add_zero _)).trans (publish_delivered hpub ev id)
  | recordEvent sid =>
      simp only [perform]
      split
      · rfl
      · split <;> rfl
  | push ev =>
      simp only [perform]
      split <;> rfl
  | targets ev =>
      simp only [perform]
      rw [filterMap_targets fun _ => rfl]
      rfl
  | target ev id =>
      simp only [perform]
      split
      · rfl
      · rename_i hnot
        rw [deliveredStreams, StreamRouter.delivered, (routeTarget_no_endpoint ev hnot).2]
        rfl
  | insertEvent _ | recordDrop | write _ | packEmitted _ _ | packDrops _ _ _ => rfl

theorem perform_telemetry (c : CountState P) (a : CountAct P) :
    (c.perform a).1.router.telemetry = c.router.telemetry := by
  cases a with
  | call call => cases call <;> rfl
  | recordEvent sid | recordEmitted sid =>
      simp only [perform]
      split
      · rfl
      · split <;> rfl
  | target ev id =>
      simp only [perform]
      split
      · rfl
      · unfold StreamRouter.routeTarget
        split
        · rfl
        · split
          · split <;> rfl
          · rfl
  | publish ev id =>
      simp only [perform]
      split
      · rfl
      · unfold publish
        split
        · rfl
        · split <;> rfl
  | insertEvent _ | push _ | recordDrop | write _ | targets _ | insertEmitted _ | packEmitted _ _
  | packDrops _ _ _ => rfl

end CountState

section Logs
variable {r : StreamRouter P} {routed : Multiset Str} {c : CountState P}

/-- One action, in the midst of others. -/
theorem Logged.perform {a : CountAct P} {K : Multiset (CountAct P)} (h : Logged r routed c ({a} + K)) :
    Logged r routed (c.perform a).1 (((c.perform a).2 : Multiset (CountAct P)) + K) := by
  refine ⟨(c.perform_telemetry a).trans h.telemetry, ?_, fun htel => ?_⟩
  · have hold := h.delivered
    have hstep := c.perform_delivered a
    rw [Multiset.filterMap_add] at hold ⊢
    rw [hold] at hstep
    -- what was counted before is on both sides
    refine add_right_cancel (b := (c.delivered : Multiset Str)
      + ({a} : Multiset (CountAct P)).filterMap CountAct.toEmit) (hstep.trans ?_)
    ac_rfl
  · have hold := h.recorded htel
    have hstep := CountState.perform_recorded (h.telemetry.trans htel) a
    rw [Multiset.filterMap_add] at hold ⊢
    rw [← hold, ← add_assoc, hstep, add_assoc]

theorem Logged.setTel {acts : Multiset (CountAct P)} (h : Logged r routed c acts)
    (tel : Telemetry) : Logged r routed (c.setTel tel) acts :=
  ⟨h.telemetry, h.delivered, h.recorded⟩

/-- One more call of `route`. -/
theorem Logged.route {acts : Multiset (CountAct P)} (h : Logged r routed c acts) (ev : Event P) :
    Logged r (routed + {ev.stream}) c ({.call (.route ev)} + acts) := by
  refine ⟨h.telemetry, ?_, fun htel => ?_⟩
  · rw [Multiset.filterMap_add]
    exact h.delivered.trans (congrArg _ (congrArg _ (zero_add _).symm))
  · rw [Multiset.filterMap_add, ← h.recorded htel]
    show _ + ({ev.stream} + _) = _
    ac_rfl

end Logs

/-! ## Runs -/

/-- The telemetry is on, attached, and has counted nothing yet. -/
structure Fresh (r : StreamRouter P) : Prop extends Attached r where
  eventCounts : r.tel.eventCounts = ∅
  emittedCounts : r.tel.emittedCounts = ∅
  drops : r.tel.drops = 0

theorem fresh_setUpRouter (cfg : Config) : Fresh (setUpRouter cfg : StreamRouter P) where
  enabled := rfl
  publisher pub hpub := by
    obtain rfl := Option.some.inj hpub
    rfl
  eventCounts := rfl
  emittedCounts := rfl
  drops := rfl

namespace CountRun

/-- Everything the threads still have to do. -/
def acts (s : CountRun P) : Multiset (CountAct P) := (s.threads.flatten : Multiset (CountAct P))

/-- What the threads hold between the drains of their packs. -/
def held (ev em : Measure) (s : CountRun P) : UInt64 :=
  ((s.threads.flatten : Multiset (CountAct P)).map (·.held ev em)).sum

structure Inv (s : CountRun P) : Prop where
  attached : Attached s.shared.router
  counted : ∀ as ∈ s.threads, ∀ a ∈ as, a.Counted
  packs : ∀ p ∈ s.shared.packs, p.Assembled P
  drops : (s.shared.packs.map (·.snapshot.drops)).sum + s.shared.tel.drops
    = UInt64.ofNat s.shared.dropped
  balance : ∀ ev em, s.shared.balance ev em + s.held ev em = 0

theorem inv_start {r : StreamRouter P} (hr : Fresh r) (calls : List (List (CountCall P))) :
    Inv (start r calls) := by
  have hcall : ∀ as ∈ (start r calls).threads, ∀ a ∈ as, ∃ call, a = .call call := by
    intro as has a ha
    obtain ⟨thread, -, rfl⟩ := List.mem_map.mp has
    obtain ⟨call, -, rfl⟩ := List.mem_map.mp ha
    exact ⟨call, rfl⟩
  refine ⟨hr.toAttached, fun as has a ha => ?_, (fun p hp => by cases hp), ?_, fun ev em => ?_⟩
  · obtain ⟨call, rfl⟩ := hcall as has a ha
    trivial
  · show (0 : UInt64) + r.tel.drops = 0
    rw [hr.drops]
    rfl
  · have hheld : (start r calls).held ev em = 0 := by
      refine Multiset.sum_eq_zero fun x hx => ?_
      obtain ⟨a, ha, rfl⟩ := Multiset.mem_map.mp hx
      obtain ⟨as, has, ha⟩ := List.mem_flatten.mp (Multiset.mem_coe.mp ha)
      obtain ⟨call, rfl⟩ := hcall as has a ha
      rfl
    rw [hheld, CountState.balance]
    show (0 : UInt64) + (ev.of r.tel.eventCounts + em.of r.tel.emittedCounts) - (0 + 0) + 0 = 0
    rw [hr.eventCounts, hr.emittedCounts, ev.empty, em.empty]
    rfl

theorem Inv.step {s : CountRun P} (h : Inv s) (i : Nat) : Inv (s.step i) := by
  unfold CountRun.step
  split
  · rename_i a rest hi
    have hmem : a :: rest ∈ s.threads := List.mem_of_getElem? hi
    have heffect := CountState.perform_effect h.attached (h.counted _ hmem a (by simp))
    refine ⟨heffect.attached h.attached, fun as has b hb => ?_, heffect.packs h.packs,
      heffect.drops h.drops, fun ev em => ?_⟩
    · rcases List.mem_or_eq_of_mem_set has with has | rfl
      · exact h.counted as has b hb
      · rcases List.mem_append.mp hb with hb | hb
        · exact heffect.counted b hb
        · exact h.counted _ hmem b (by simp [hb])
    · -- the threads' bag loses the action and gains what it leads to
      obtain ⟨K, hbefore, hafter⟩ := flatten_set_bag hi
      have hbalance := h.balance ev em
      have hstep := heffect.balance ev em
      unfold held at hbalance ⊢
      rw [hbefore] at hbalance
      rw [hafter]
      simp only [Multiset.map_add, Multiset.map_coe, Multiset.sum_add, Multiset.sum_coe,
        List.map_cons, List.sum_cons, List.map_append, List.sum_append] at hbalance ⊢
      grind
  · exact h

theorem logged_start (r : StreamRouter P) (calls : List (List (CountCall P))) :
    Logged r ((start r calls).acts.filterMap CountAct.toRecord) (start r calls).shared
      (start r calls).acts := by
  refine ⟨rfl, ?_, fun _ => zero_add _⟩
  have hnone : (start r calls).acts.filterMap CountAct.toEmit = 0 := by
    rw [acts, Multiset.filterMap_coe, Multiset.coe_eq_zero, List.filterMap_eq_nil_iff]
    intro a ha
    obtain ⟨as, has, ha⟩ := List.mem_flatten.mp ha
    obtain ⟨thread, -, rfl⟩ := List.mem_map.mp has
    obtain ⟨call, -, rfl⟩ := List.mem_map.mp ha
    rfl
  rw [hnone]
  exact (add_zero _).symm

theorem logged_step {r : StreamRouter P} {routed : Multiset Str} {s : CountRun P}
    (h : Logged r routed s.shared s.acts) (i : Nat) :
    Logged r routed (s.step i).shared (s.step i).acts := by
  unfold CountRun.step
  split
  · rename_i a rest hi
    obtain ⟨K, hbefore, hafter⟩ := flatten_set_bag hi
    have hold : s.acts = {a} + ((rest : Multiset (CountAct P)) + K) := by
      rw [acts, hbefore, ← Multiset.cons_coe, ← Multiset.singleton_add]
      ac_rfl
    rw [hold] at h
    have hnew := h.perform
    rw [← add_assoc, Multiset.coe_add, add_comm] at hnew
    rw [acts, hafter]
    exact hnew
  · exact h

theorem logged_run (r : StreamRouter P) (calls : List (List (CountCall P))) (turns : List Nat) :
    Logged r ((start r calls).acts.filterMap CountAct.toRecord) ((start r calls).run turns).shared
      ((start r calls).run turns).acts :=
  @foldl_keeps (CountRun P) Nat CountRun.step
    (fun s => Logged r ((start r calls).acts.filterMap CountAct.toRecord) s.shared s.acts)
    (fun _ i h => logged_step h i) turns _ (logged_start r calls)

theorem inv_run {r : StreamRouter P} (hr : Fresh r) (calls : List (List (CountCall P)))
    (turns : List Nat) : Inv ((start r calls).run turns) :=
  foldl_keeps (fun _ i h => h.step i) turns _ (inv_start hr calls)

end CountRun

/-! ## The packed snapshots -/

namespace Measure

theorem credit_atStream {sid : Str} (h : Telemetry.isOwnStream sid = false) (streams : List Str) :
    (atStream sid).credit streams = UInt64.ofNat (streams.count sid) := by
  induction streams with
  | nil => rfl
  | cons s streams ih =>
      have hcons : (atStream sid).credit (s :: streams)
          = (if sid = s then 1 else 0) + (atStream sid).credit streams := by
        by_cases hs : sid = s
        · subst hs
          rw [credit, List.filter_cons_of_pos (by simp [h]), List.map_cons, List.sum_cons]
          rfl
        · cases hown : Telemetry.isOwnStream s with
          | true =>
              rw [credit, List.filter_cons_of_neg (by simp [hown]), if_neg hs, zero_add, credit]
          | false =>
              rw [credit, List.filter_cons_of_pos (by simp [hown]), List.map_cons, List.sum_cons]
              rfl
      rw [hcons, ih, List.count_cons, UInt64.ofNat_add, add_comm]
      by_cases hs : sid = s
      · simp [hs]
      · simp [hs, Ne.symm hs]

theorem credit_total (streams : List Str) : total.credit streams
    = UInt64.ofNat (streams.countP fun sid => !Telemetry.isOwnStream sid) := by
  rw [credit, List.countP_eq_length_filter]
  generalize streams.filter _ = l
  induction l with
  | nil => rfl
  | cons s l ih =>
      rw [List.map_cons, List.sum_cons, ih, List.length_cons, UInt64.ofNat_add, add_comm]
      rfl

theorem credit_none (streams : List Str) : none.credit streams = 0 := by
  refine List.sum_eq_zero fun x hx => ?_
  obtain ⟨_, -, rfl⟩ := List.mem_map.mp hx
  rfl

end Measure

/-- A stream's count in a snapshot. -/
def entryCount (sid : Str) (snapshot : StreamSnapshot) : UInt64 :=
  ((snapshot.entries.filter fun e => e.1 = sid).map (·.2)).sum

/-- The snapshots of the packs that returned true. -/
def CountState.packed (c : CountState P) : List StreamSnapshot :=
  (c.packs.filter (·.returned)).map (·.snapshot)

namespace PackCall
variable {p : PackCall}

/-- Nothing was drained. -/
structure Empty (p : PackCall) : Prop where
  eventSnap : ∀ sid, UMap.getD p.eventSnap sid 0 = 0
  emittedSnap : ∀ sid, UMap.getD p.emittedSnap sid 0 = 0
  drops : p.snapshot.drops = 0

theorem Assembled.entryCount (h : p.Assembled P) (sid : Str) :
    entryCount sid p.snapshot = UMap.getD p.eventSnap sid 0 + UMap.getD p.emittedSnap sid 0 := by
  obtain ⟨timestampNs, drops, hsnapshot⟩ := h.snapshot
  rw [Server.entryCount, hsnapshot, assemble]
  dsimp only
  rw [UMap.sum_filter_toPairs, Telemetry.getD_addCounts, Telemetry.getD_addCounts, UMap.getD_empty,
    zero_add]

theorem Assembled.totals (h : p.Assembled P) : p.snapshot.totalEvents = p.eventSnap.total ∧
    p.snapshot.totalEmitted = p.emittedSnap.total := by
  obtain ⟨timestampNs, drops, hsnapshot⟩ := h.snapshot
  rw [hsnapshot, assemble]
  exact ⟨Telemetry.sumCounts_eq_total _, Telemetry.sumCounts_eq_total _⟩

/-- A pack that returns false has drained nothing. -/
theorem Assembled.empty (h : p.Assembled P) (hreturned : p.returned = false) : p.Empty := by
  obtain ⟨timestampNs, drops, hsnapshot⟩ := h.snapshot
  have hnone : (p.snapshot.entries.isEmpty && p.snapshot.drops == 0) = true := by
    have hpack := h.returned
    rw [hreturned, StreamSnapshot.pack] at hpack
    by_contra hnot
    rw [if_neg hnot] at hpack
    cases hpack
  rw [Bool.and_eq_true, List.isEmpty_iff, beq_iff_eq] at hnone
  obtain ⟨hentries, hdrops⟩ := hnone
  rw [hsnapshot] at hentries
  obtain ⟨hevents, hemitted⟩ := Telemetry.toPairs_addCounts hentries
  have hevents := (Telemetry.toPairs_addCounts hevents).2
  rw [UMap.toPairs_eq_nil] at hevents hemitted
  refine ⟨fun sid => ?_, fun sid => ?_, hdrops⟩
  · rw [UMap.getD, AList.lookup_eq_none.mpr (hevents sid), Option.getD_none]
  · rw [UMap.getD, AList.lookup_eq_none.mpr (hemitted sid), Option.getD_none]

end PackCall

/-- What the packs that returned false contribute is zero. -/
theorem sum_packed {c : CountState P} (f : StreamSnapshot → UInt64)
    (h : ∀ p ∈ c.packs, p.returned = false → f p.snapshot = 0) :
    (c.packed.map f).sum = (c.packs.map fun p => f p.snapshot).sum := by
  rw [CountState.packed, List.map_map]
  generalize hpacks : c.packs = packs at h
  clear hpacks
  induction packs with
  | nil => rfl
  | cons p packs ih =>
      have hrest := ih fun q hq => h q (by simp [hq])
      cases hp : p.returned with
      | true =>
          rw [List.filter_cons_of_pos hp, List.map_cons, List.sum_cons, hrest, List.map_cons,
            List.sum_cons]
          rfl
      | false =>
          rw [List.filter_cons_of_neg (by simp [hp]), hrest, List.map_cons, List.sum_cons,
            h p (by simp) hp, zero_add]

namespace CountRun

/-- Without packs under way, what is packed and what the counters hold is what was recorded. -/
theorem Inv.settled {s : CountRun P} (h : Inv s)
    (hidle : ∀ as ∈ s.threads, ∀ a ∈ as, a.midPack = false) (ev em : Measure) :
    (s.shared.packs.map fun p => ev.of p.eventSnap + em.of p.emittedSnap).sum
        + (ev.of s.shared.tel.eventCounts + em.of s.shared.tel.emittedCounts)
      = ev.credit s.shared.recorded + em.credit s.shared.delivered := by
  have hheld : s.held ev em = 0 := by
    refine Multiset.sum_eq_zero fun x hx => ?_
    obtain ⟨a, ha, rfl⟩ := Multiset.mem_map.mp hx
    obtain ⟨as, has, ha⟩ := List.mem_flatten.mp (Multiset.mem_coe.mp ha)
    exact CountAct.held_eq_zero (hidle as has a ha) ev em
  have hbalance := h.balance ev em
  rw [hheld, CountState.balance] at hbalance
  grind

/-- After any run from a fresh router, once no pack is under way. The calls of `record_event` are
those of the routes made, and the deliveries are the endpoints', but for those not yet counted. -/
theorem counts_conserved {r : StreamRouter P} (hr : Fresh r) (calls : List (List (CountCall P)))
    (turns : List Nat)
    (hidle : ∀ as ∈ ((start r calls).run turns).threads, ∀ a ∈ as, a.midPack = false) :
    let c := ((start r calls).run turns).shared
    (∀ sid, Telemetry.isOwnStream sid = false →
      (c.packed.map (entryCount sid)).sum + UMap.getD c.tel.eventCounts sid 0
          + UMap.getD c.tel.emittedCounts sid 0
        = UInt64.ofNat (c.recorded.count sid) + UInt64.ofNat (c.delivered.count sid)) ∧
    (c.packed.map (·.totalEvents)).sum + Telemetry.sumCounts c.tel.eventCounts
      = UInt64.ofNat (c.recorded.countP fun sid => !Telemetry.isOwnStream sid) ∧
    (c.packed.map (·.totalEmitted)).sum + Telemetry.sumCounts c.tel.emittedCounts
      = UInt64.ofNat (c.delivered.countP fun sid => !Telemetry.isOwnStream sid) ∧
    (c.packed.map (·.drops)).sum + c.tel.drops = UInt64.ofNat c.dropped ∧
    (∀ p ∈ c.packs, p.returned = false → p.Empty) ∧
    Logged r ((start r calls).acts.filterMap CountAct.toRecord) c
      ((start r calls).run turns).acts := by
  intro c
  have hinv : Inv ((start r calls).run turns) := inv_run hr calls turns
  have hempty : ∀ p ∈ c.packs, p.returned = false → p.Empty := fun p hp hreturned =>
    (hinv.packs p hp).empty hreturned
  refine ⟨fun sid hsid => ?_, ?_, ?_, ?_, hempty, logged_run r calls turns⟩
  · have hsettled := hinv.settled hidle (.atStream sid) (.atStream sid)
    rw [Measure.credit_atStream hsid, Measure.credit_atStream hsid] at hsettled
    rw [sum_packed _ fun p hp hreturned => ?_]
    · rw [List.map_congr_left fun p hp => (hinv.packs p hp).entryCount sid, ← hsettled, add_assoc]
      rfl
    · rw [(hinv.packs p hp).entryCount, (hempty p hp hreturned).eventSnap,
        (hempty p hp hreturned).emittedSnap]
      rfl
  · have hsettled := hinv.settled hidle .total .none
    rw [Measure.credit_total, Measure.credit_none] at hsettled
    rw [sum_packed _ fun p hp hreturned => ?_]
    · rw [List.map_congr_left fun p hp => (hinv.packs p hp).totals.1, Telemetry.sumCounts_eq_total]
      simpa [Measure.total, Measure.none] using hsettled
    · rw [(hinv.packs p hp).totals.1]
      exact UMap.total_zero (hempty p hp hreturned).eventSnap
  · have hsettled := hinv.settled hidle .none .total
    rw [Measure.credit_total, Measure.credit_none] at hsettled
    rw [sum_packed _ fun p hp hreturned => ?_]
    · rw [List.map_congr_left fun p hp => (hinv.packs p hp).totals.2, Telemetry.sumCounts_eq_total]
      simpa [Measure.total, Measure.none] using hsettled
    · rw [(hinv.packs p hp).totals.2]
      exact UMap.total_zero (hempty p hp hreturned).emittedSnap
  · rw [sum_packed _ fun p hp hreturned => (hempty p hp hreturned).drops]
    exact hinv.drops

/-! A route to an endpoint while the packs of another thread are under way. -/

def endpointRouter : StreamRouter 8 :=
  { (setUpRouter ⟨[]⟩ : StreamRouter 8) with
    routeTable := AList.singleton (lit "s") [lit "out"]
    publisher := some
      { telemetry := true
        endpoints := AList.singleton (lit "out") (.stdout (lit "out")) } }

theorem fresh_endpointRouter : Fresh endpointRouter where
  enabled := rfl
  publisher pub hpub := by
    obtain rfl := Option.some.inj hpub
    rfl
  eventCounts := rfl
  emittedCounts := rfl
  drops := rfl

def routeAndPack : List (List (CountCall 8)) :=
  [[.route (({} : Event 8).setStream (lit "s"))], [.pack 1, .pack 2]]

def packBetween : List Nat := [0, 0, 0, 1, 0, 0, 1, 0, 0, 0, 0, 0, 1, 1, 1, 1]

theorem counts_conserved_between :
    let c := ((start endpointRouter routeAndPack).run packBetween).shared
    (∀ sid, Telemetry.isOwnStream sid = false →
      (c.packed.map (entryCount sid)).sum + UMap.getD c.tel.eventCounts sid 0
          + UMap.getD c.tel.emittedCounts sid 0
        = UInt64.ofNat (c.recorded.count sid) + UInt64.ofNat (c.delivered.count sid)) ∧
    (c.packed.map (·.totalEvents)).sum + Telemetry.sumCounts c.tel.eventCounts
      = UInt64.ofNat (c.recorded.countP fun sid => !Telemetry.isOwnStream sid) ∧
    (c.packed.map (·.totalEmitted)).sum + Telemetry.sumCounts c.tel.emittedCounts
      = UInt64.ofNat (c.delivered.countP fun sid => !Telemetry.isOwnStream sid) ∧
    (c.packed.map (·.drops)).sum + c.tel.drops = UInt64.ofNat c.dropped ∧
    (∀ p ∈ c.packs, p.returned = false → p.Empty) ∧
    Logged endpointRouter ((start endpointRouter routeAndPack).acts.filterMap CountAct.toRecord) c
      ((start endpointRouter routeAndPack).run packBetween).acts :=
  counts_conserved fresh_endpointRouter routeAndPack packBetween (by decide +kernel)

/-- A `record_event` call on the stream of the metrics is not counted. -/
theorem own_stream_not_counted :
    let s := (start (setUpRouter ⟨[]⟩ : StreamRouter 8)
      [[.route (({} : Event 8).setStream (lit "telemetry"))]]).run [0, 0, 0, 0, 0]
    s.threads = [[]] ∧ s.shared.recorded.length = 1 ∧
      (s.shared.packed.map (·.totalEvents)).sum + Telemetry.sumCounts s.shared.tel.eventCounts
        ≠ UInt64.ofNat s.shared.recorded.length := by
  refine ⟨?_, by decide +kernel, by decide +kernel⟩
  rfl

end CountRun

end Mawmaw.Server
