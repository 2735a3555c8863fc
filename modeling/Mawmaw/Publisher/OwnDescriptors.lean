import Mawmaw.Publisher.Descriptors

/-!
# A handler closes its own descriptor

* `Inv.closesOwn_leave_iff` : the lookup of a handler that leaves, which is the only step that can go
  wrong;
* `closes_own_iff` : all goes right as long as no handler leaves whose client `publish` has dropped
  and whose number is listed again.
-/

namespace Mawmaw.Pub.Clients
open Mawmaw.Lib

/-! ## What a step hits -/

section
variable {s s' : Clients} {i k n meant : Nat} {caller : Option Nat} {e : Listed}

/-- A call of `close` more. -/
theorem closesOwn_close_iff (h : s.ClosesOwn) (hs' : s'.Files)
    (hcloses : s'.closes = s.closes ++ [⟨caller, meant, s.table.object n⟩])
    (herases : s'.erases = s.erases) : s'.ClosesOwn ↔ s.table.object n = some meant := by
  rw [hs'.closesOwn_iff, hcloses, herases]
  constructor
  · rintro ⟨hhit, -⟩
    exact hhit _ (List.mem_append_right _ (List.mem_singleton_self _))
  · intro hobject
    refine ⟨fun c hc => ?_, h.erased⟩
    rcases List.mem_append.1 hc with hc | hc
    · exact h.hit c hc
    · rw [List.mem_singleton] at hc
      rw [hc]
      exact hobject

/-- The handler finds its own element exactly if `publish` has not dropped it. -/
theorem Inv.own_iff (h : s.Inv) (hown : s.ClosesOwn) (hi : s.phase i = .leaving)
    (hm : s.mutex = .nobody) (hk : s.clients[k]? = some e) (hfd : e.fd = s.fd i) :
    s.table.object (s.fd i) = some i ↔ ¬ s.Dropped i := by
  have hmem : e ∈ s.live := live_of_nobody hm ▸ List.mem_of_getElem? hk
  have hobject := (h.listed e hmem).1
  constructor
  · rintro hopen ⟨c, hc, -, rfl⟩
    refine h.table.shut _ _ hopen ?_
    rw [← h.hits, List.mem_filterMap]
    exact ⟨c, hc, hown.hit c hc⟩
  · intro hdropped
    have hself := h.own hown i (Or.inr hi) hdropped
    rw [← live_of_nobody hm] at hself
    exact (h.listed _ hself).1

theorem ClosesOwn.of_logs (hown : s.ClosesOwn) (hcloses : s'.closes = s.closes)
    (herases : s'.erases = s.erases) : s'.ClosesOwn where
  hit := hcloses ▸ hown.hit
  once := hcloses ▸ hown.once
  erased := herases ▸ hown.erased

/-- The erasure that follows a close hits what the close did. -/
theorem Inv.closesOwn_eraseFound (h : s.Inv) (hown : s.ClosesOwn) (hm : s.mutex = .handler i k) :
    (s.eraseFound i k).ClosesOwn where
  hit := hown.hit
  once := hown.once
  erased p hp := by
    obtain ⟨-, e, hk, hclose⟩ := h.found i k hm
    have hconn : some e.conn = some i := hown.hit _ hclose
    rcases List.mem_append.1 hp with hp | hp
    · exact hown.erased p hp
    · rw [hk] at hp
      obtain rfl := List.mem_singleton.1 hp
      exact Option.some.inj hconn

/-- The only step of a handler that can go wrong is the one that looks its number up. -/
theorem Inv.closesOwn_handlerStep (h : s.Inv) (hown : s.ClosesOwn) (ok : Bool)
    (hother : s.phase i ≠ .leaving ∨ s.mutex ≠ .nobody) : (s.handlerStep i ok).ClosesOwn := by
  have hinv := h.handlerStep (i := i) ok
  cases hi : s.phase i with
  | unstarted =>
      simp only [Clients.handlerStep, hi]
      exact hown
  | handshaking =>
      simp only [Clients.handlerStep, hi] at hinv ⊢
      cases ok with
      | true => exact hown.of_logs rfl rfl
      | false => exact (closesOwn_close_iff hown hinv.toFiles rfl rfl).2 (h.early i (Or.inl hi))
  | pushing =>
      simp only [Clients.handlerStep, hi]
      split
      · exact hown.of_logs rfl rfl
      · exact hown
  | serving =>
      simp only [Clients.handlerStep, hi]
      split
      · exact hown
      · exact hown.of_logs rfl rfl
  | leaving =>
      simp only [Clients.handlerStep, hi]
      cases hm : s.mutex with
      | nobody => exact absurd hother (by simp [hi, hm])
      | publish k => exact hown
      | dropping k => exact hown
      | handler j k =>
          dsimp only
          split
          · next hji => exact h.closesOwn_eraseFound hown (hji ▸ hm)
          · exact hown
  | ended =>
      simp only [Clients.handlerStep, hi]
      exact hown

theorem Inv.closesOwn_leave_iff (h : s.Inv) (hown : s.ClosesOwn) (ok : Bool)
    (hi : s.phase i = .leaving) (hm : s.mutex = .nobody) :
    (s.handlerStep i ok).ClosesOwn ↔ (s.Dropped i → ∀ e ∈ s.clients, e.fd ≠ s.fd i) := by
  have hinv := h.handlerStep (i := i) ok
  simp only [Clients.handlerStep, hi, hm] at hinv ⊢
  cases hfind : s.clients.findIdx? (·.fd == s.fd i) with
  | none =>
      refine ⟨fun _ _ e he hfd => ?_, fun _ => hown.of_logs rfl rfl⟩
      have := List.findIdx?_eq_none_iff.1 hfind e he
      exact absurd (beq_iff_eq.2 hfd) (Bool.eq_false_iff.1 this)
  | some k =>
      rw [hfind] at hinv
      obtain ⟨e, hk, hfd⟩ := findIdx?_fd hfind
      rw [closesOwn_close_iff hown hinv.toFiles rfl rfl, h.own_iff hown hi hm hk hfd]
      exact ⟨fun hno hdropped => absurd hdropped hno,
        fun hnone hdropped => hnone hdropped e (List.mem_of_getElem? hk) hfd⟩

theorem Inv.closesOwn_publishStep (h : s.Inv) (hown : s.ClosesOwn) (ok : Bool) :
    (s.publishStep ok).ClosesOwn := by
  have hinv := h.publishStep ok
  cases hm : s.mutex with
  | nobody =>
      simp only [Clients.publishStep, hm]
      exact hown.of_logs rfl rfl
  | publish k =>
      simp only [Clients.publishStep, hm] at hinv ⊢
      cases hk : s.clients[k]? with
      | none => exact hown.of_logs rfl rfl
      | some e =>
          rw [hk] at hinv
          cases ok with
          | true => exact hown.of_logs rfl rfl
          | false =>
              have hlive : s.live = s.clients := by rw [live, closedAt, hm]
              have he : e ∈ s.live := hlive ▸ List.mem_of_getElem? hk
              exact (closesOwn_close_iff hown hinv.toFiles rfl rfl).2 (h.listed e he).1
  | dropping k =>
      simp only [Clients.publishStep, hm]
      exact hown.of_logs rfl rfl
  | handler j k =>
      simp only [Clients.publishStep, hm]
      exact hown

theorem Inv.leavesUnlisted_iff (h : s.Inv) (hown : s.ClosesOwn) (t : ClientTurn) :
    s.LeavesUnlisted t ↔ (s.step t).ClosesOwn := by
  cases t with
  | accept fd =>
      refine ⟨fun _ => ?_, fun _ => trivial⟩
      show (if s.table.object fd = none then s.accept fd else s).ClosesOwn
      split
      · exact hown.of_logs rfl rfl
      · exact hown
  | publish ok => exact ⟨fun _ => h.closesOwn_publishStep hown ok, fun _ => trivial⟩
  | handler i ok =>
      show (s.phase i = .leaving → s.mutex = .nobody → s.Dropped i → ∀ e ∈ s.clients, e.fd ≠ s.fd i)
        ↔ (s.handlerStep i ok).ClosesOwn
      by_cases hlooks : s.phase i = .leaving ∧ s.mutex = .nobody
      · rw [h.closesOwn_leave_iff hown ok hlooks.1 hlooks.2]
        exact ⟨fun hleaves => hleaves hlooks.1 hlooks.2, fun hleaves _ _ => hleaves⟩
      · refine ⟨fun _ => ?_, fun _ hi hm => absurd ⟨hi, hm⟩ hlooks⟩
        exact h.closesOwn_handlerStep hown ok (not_and_or.1 hlooks)

end

/-- In every run, every call of `close` hits the connection it is made for, none is made twice for
a connection, and every handler erases its own element, exactly if no handler looks its number up
after `publish` has dropped its client and while the number is listed again. -/
theorem closes_own_iff (turns : List ClientTurn) :
    Along step LeavesUnlisted {} turns ↔ ∀ pre, pre <+: turns → (run {} pre).ClosesOwn :=
  along_iff_prefixes LeavesUnlisted Inv ClosesOwn (fun _ t h => h.step t)
    (fun _ t h hown => h.leavesUnlisted_iff hown t) turns {} inv_start
    ⟨fun _ h => (List.not_mem_nil h).elim, List.nodup_nil, fun _ h => (List.not_mem_nil h).elim⟩

/-! Number 5 is dropped, given to the next connection and listed before its handler leaves. -/

def reusedNumber : List ClientTurn :=
  [.accept 5, .handler 0 true, .handler 0 true, .publish true, .publish false, .publish true,
    .publish true, .accept 5, .handler 1 true, .handler 1 true, .handler 0 false, .handler 0 true,
    .handler 0 true]

theorem closes_other :
    let s := run {} reusedNumber
    (s.closes = [⟨none, 0, some 0⟩, ⟨some 0, 0, some 1⟩] ∧ s.erases = [(0, 1)]) ∧
      ¬ s.ClosesOwn := by
  intro s
  have hlogs : s.closes = [⟨none, 0, some 0⟩, ⟨some 0, 0, some 1⟩] ∧ s.erases = [(0, 1)] := by
    decide +kernel
  refine ⟨hlogs, fun h => ?_⟩
  have := h.erased (0, 1) (by rw [hlogs.2]; exact List.mem_singleton_self _)
  cases this

end Mawmaw.Pub.Clients
