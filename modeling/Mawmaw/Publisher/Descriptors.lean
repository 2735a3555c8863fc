import Mathlib.Data.List.Nodup
import Mawmaw.Lib.HandleTable
import Mawmaw.Lib.Schedule

/-!
# Whose descriptor is closed

The clients of one `WebSocketEndpoint`. The operating system gives an accepted connection any
number that is not in use; `publish` closes and takes off `clients_` a client it cannot send to,
and a client's handler looks its number up in `clients_` when it leaves. Connections are counted in
the order they are accepted.

* `ClientTurn`, `Clients.step` : a step of the accept thread, of a handler or of a `publish` call;
* `ClosesOwn` : what the calls of `close` and `erase` should hit;
* `Inv`, `Inv.step` : the numbers in `clients_` are open, each under the connection it was put there
  for, whatever the calls of `close` hit.
-/

namespace Mawmaw.Pub
open Mawmaw.Lib

/-- Where the handler of a connection is. -/
inductive ThreadPhase
  | unstarted
  | handshaking
  | pushing
  | serving
  | leaving
  | ended
  deriving DecidableEq, Repr

/-- The handler has not listed its client yet. -/
def ThreadPhase.Early (x : ThreadPhase) : Prop := x = .handshaking ∨ x = .pushing

/-- The handler has listed its client and has not looked it up. -/
def ThreadPhase.Listing (x : ThreadPhase) : Prop := x = .serving ∨ x = .leaving

instance : DecidablePred ThreadPhase.Early :=
  fun x => inferInstanceAs (Decidable (x = .handshaking ∨ x = .pushing))

instance : DecidablePred ThreadPhase.Listing :=
  fun x => inferInstanceAs (Decidable (x = .serving ∨ x = .leaving))

/-- An element of `clients_`; no code reads `conn`, the connection it was put there for. -/
structure Listed where
  fd : Nat
  conn : Nat
  deriving DecidableEq, Repr

/-- Who holds `clients_mu_`: a `publish` call about to send to the `k`-th client, or about to erase
it; the handler `i`, about to erase the `k`-th client. -/
inductive Holder
  | nobody
  | publish (k : Nat)
  | dropping (k : Nat)
  | handler (i k : Nat)
  deriving DecidableEq, Repr

/-- A call of `close`: the handler that makes it, or none for `publish`; the connection it is made
for; the connection its number stands for. -/
structure Close where
  caller : Option Nat
  meant : Nat
  hit : Option Nat
  deriving DecidableEq, Repr

/-- `fd i` is the number the handler `i` was started with. `erases` are the erasures by handlers:
the handler, and the connection whose element it erases. -/
structure Clients where
  table : HandleTable Nat := {}
  accepted : Nat := 0
  fd : Nat → Nat := fun _ => 0
  phase : Nat → ThreadPhase := fun _ => .unstarted
  clients : List Listed := []
  mutex : Holder := .nobody
  closes : List Close := []
  erases : List (Nat × Nat) := []

/-- `fd`: the number the operating system gives. `ok`: the handler's handshake succeeds, or its
frame is read and `running_` is set; the send of the `publish` call succeeds. -/
inductive ClientTurn
  | accept (fd : Nat)
  | handler (i : Nat) (ok : Bool)
  | publish (ok : Bool)

namespace Clients

def setPhase (s : Clients) (i : Nat) (x : ThreadPhase) : Clients :=
  { s with phase := Function.update s.phase i x }

/-- `::close(fd)`. -/
def closeFd (s : Clients) (caller : Option Nat) (meant fd : Nat) : Clients :=
  { s with
    table := s.table.close fd
    closes := s.closes ++ [⟨caller, meant, s.table.object fd⟩] }

def accept (s : Clients) (fd : Nat) : Clients :=
  { s with
    table := s.table.openAt fd s.accepted
    accepted := s.accepted + 1
    fd := Function.update s.fd s.accepted fd
    phase := Function.update s.phase s.accepted .handshaking }

/-- The handshake fails. -/
def refuse (s : Clients) (i : Nat) : Clients := (s.closeFd (some i) i (s.fd i)).setPhase i .ended

def push (s : Clients) (i : Nat) : Clients :=
  { s with clients := s.clients ++ [Listed.mk (s.fd i) i] }.setPhase i .serving

/-- The handler that leaves has found its number at the `k`-th client. -/
def closeFound (s : Clients) (i k : Nat) : Clients :=
  { s.closeFd (some i) i (s.fd i) with mutex := .handler i k }

def eraseFound (s : Clients) (i k : Nat) : Clients :=
  { s with
    clients := s.clients.eraseIdx k
    mutex := .nobody
    erases := s.erases ++ s.clients[k]?.toList.map fun e : Listed => (i, e.conn) }.setPhase i .ended

/-- The send to the `k`-th client fails. -/
def drop (s : Clients) (k : Nat) (e : Listed) : Clients :=
  { s.closeFd none e.conn e.fd with mutex := .dropping k }

def eraseDropped (s : Clients) (k : Nat) : Clients :=
  { s with clients := s.clients.eraseIdx k, mutex := .publish k }

def handlerStep (s : Clients) (i : Nat) (ok : Bool) : Clients :=
  match s.phase i with
  | .unstarted => s
  | .handshaking => if ok then s.setPhase i .pushing else s.refuse i
  | .pushing => if s.mutex = .nobody then s.push i else s
  | .serving => if ok then s else s.setPhase i .leaving
  | .leaving =>
    match s.mutex with
    | .nobody =>
      match s.clients.findIdx? (·.fd == s.fd i) with
      | some k => s.closeFound i k
      | none => s.setPhase i .ended
    | .handler j k => if j = i then s.eraseFound i k else s
    | .publish _ => s
    | .dropping _ => s
  | .ended => s

def publishStep (s : Clients) (ok : Bool) : Clients :=
  match s.mutex with
  | .nobody => { s with mutex := .publish 0 }
  | .publish k =>
    match s.clients[k]? with
    | some e => if ok then { s with mutex := .publish (k + 1) } else s.drop k e
    | none => { s with mutex := .nobody }
  | .dropping k => s.eraseDropped k
  | .handler _ _ => s

def step (s : Clients) : ClientTurn → Clients
  | .accept fd => if s.table.object fd = none then s.accept fd else s
  | .handler i ok => s.handlerStep i ok
  | .publish ok => s.publishStep ok

def run (s : Clients) (turns : List ClientTurn) : Clients := turns.foldl step s

/-- Every call of `close` hits the connection it is made for, none is made twice for a connection,
and a handler erases its own element. -/
structure ClosesOwn (s : Clients) : Prop where
  hit : ∀ c ∈ s.closes, c.hit = some c.meant
  once : (s.closes.map (·.meant)).Nodup
  erased : ∀ e ∈ s.erases, e.2 = e.1

/-- `publish` has closed the connection, as it could not send to it. -/
def Dropped (s : Clients) (i : Nat) : Prop := ∃ c ∈ s.closes, c.caller = none ∧ c.meant = i

/-- A handler that takes the mutex to leave has not been dropped, or its number is not listed
again. -/
def LeavesUnlisted (s : Clients) : ClientTurn → Prop
  | .handler i _ =>
    s.phase i = .leaving → s.mutex = .nobody → s.Dropped i → ∀ e ∈ s.clients, e.fd ≠ s.fd i
  | _ => True

/-- The client that is closed and not erased yet. -/
def closedAt (s : Clients) : Option Nat :=
  match s.mutex with
  | .nobody => none
  | .publish _ => none
  | .dropping k => some k
  | .handler _ k => some k

/-- `clients_` without it. -/
def live (s : Clients) : List Listed :=
  match s.closedAt with
  | none => s.clients
  | some k => s.clients.eraseIdx k

/-! ## The open numbers -/

/-- The numbers in use stand for connections accepted under them. -/
structure Files (s : Clients) : Prop where
  table : s.table.Inv
  hits : s.closes.filterMap (·.hit) = s.table.closed
  fresh : ∀ i, s.accepted ≤ i → s.phase i = .unstarted ∧ i ∉ s.table.closed
  owner : ∀ n i, s.table.object n = some i → s.phase i ≠ .unstarted ∧ s.fd i = n

section
variable {s : Clients} {i k n meant : Nat} {caller : Option Nat} {x : ThreadPhase} {e : Listed}

theorem Files.setPhase (h : s.Files) (hi : s.phase i ≠ .unstarted) (hx : x ≠ .unstarted) :
    (s.setPhase i x).Files where
  table := h.table
  hits := h.hits
  fresh j hj := by
    obtain ⟨hphase, hclosed⟩ := h.fresh j hj
    have hji : j ≠ i := fun heq => hi (heq ▸ hphase)
    exact ⟨(Function.update_of_ne hji _ _).trans hphase, hclosed⟩
  owner m j hm := by
    obtain ⟨hphase, hfd⟩ := h.owner m j hm
    refine ⟨?_, hfd⟩
    show Function.update s.phase i x j ≠ _
    by_cases hji : j = i
    · rw [hji, Function.update_self]
      exact hx
    · rwa [Function.update_of_ne hji]

theorem Files.closeFd (h : s.Files) : (s.closeFd caller meant n).Files where
  table := h.table.close
  hits := by
    show (s.closes ++ [_]).filterMap _ = s.table.closed ++ _
    rw [List.filterMap_append, h.hits]
    cases s.table.object n <;> rfl
  fresh j hj := by
    obtain ⟨hphase, hclosed⟩ := h.fresh j hj
    refine ⟨hphase, ?_⟩
    show j ∉ s.table.closed ++ _
    rw [List.mem_append, Option.mem_toList]
    rintro (hj | hj)
    · exact hclosed hj
    · exact (h.owner n j hj).1 hphase
  owner m j hm := h.owner m j (HandleTable.close_some hm).2

theorem Files.accept (h : s.Files) : (s.accept n).Files where
  table := by
    refine h.table.openAt (fun m hm => ?_) (h.fresh _ (Nat.le_refl _)).2
    exact (h.owner m _ hm).1 (h.fresh _ (Nat.le_refl _)).1
  hits := h.hits
  fresh j hj := by
    obtain ⟨hphase, hclosed⟩ := h.fresh j (Nat.le_of_succ_le hj)
    exact ⟨(Function.update_of_ne (Nat.ne_of_gt hj) _ _).trans hphase, hclosed⟩
  owner m j hm := by
    show Function.update s.phase s.accepted _ j ≠ _ ∧ Function.update s.fd s.accepted n j = m
    by_cases hmn : m = n
    · subst hmn
      obtain rfl := Option.some.inj (HandleTable.openAt_self.symm.trans hm)
      rw [Function.update_self, Function.update_self]
      exact ⟨ThreadPhase.noConfusion, rfl⟩
    · have hm : s.table.object m = some j := by
        rwa [Clients.accept, HandleTable.openAt_ne hmn] at hm
      obtain ⟨hphase, hfd⟩ := h.owner m j hm
      have hj : j ≠ s.accepted :=
        fun heq => hphase (heq ▸ (h.fresh _ (Nat.le_refl _)).1)
      rw [Function.update_of_ne hj, Function.update_of_ne hj]
      exact ⟨hphase, hfd⟩

end

/-! ## The listed clients -/

/-- Every listed client but the one just closed is open under its number. -/
structure Inv (s : Clients) : Prop extends Files s where
  early : ∀ i, (s.phase i).Early → s.table.object (s.fd i) = some i
  listed : ∀ e ∈ s.live, s.table.object e.fd = some e.conn ∧ ¬ (s.phase e.conn).Early
  nodup : (s.live.map (·.fd)).Nodup
  dropping : ∀ k, s.mutex = .dropping k → ∃ e, s.clients[k]? = some e ∧ s.Dropped e.conn
  found : ∀ i k, s.mutex = .handler i k → s.phase i = .leaving ∧
    ∃ e, s.clients[k]? = some e ∧ Close.mk (some i) i (some e.conn) ∈ s.closes
  own : s.ClosesOwn → ∀ i, (s.phase i).Listing → ¬ s.Dropped i → Listed.mk (s.fd i) i ∈ s.clients

section
variable {s s' : Clients} {i k n meant : Nat} {caller : Option Nat} {x : ThreadPhase} {e : Listed}

theorem mem_eraseIdx_of_ne {l : List Listed} {a : Listed} (hk : l[k]? = some e) (ha : a ∈ l)
    (hne : a ≠ e) : a ∈ l.eraseIdx k := by
  rw [List.mem_eraseIdx_iff_getElem?]
  obtain ⟨j, hj⟩ := List.mem_iff_getElem?.1 ha
  refine ⟨j, ?_, hj⟩
  rintro rfl
  rw [hj] at hk
  exact hne (Option.some.inj hk)

theorem fd_ne_of_mem_eraseIdx {l : List Listed} {a : Listed} (hnodup : (l.map (·.fd)).Nodup)
    (hk : l[k]? = some e) (ha : a ∈ l.eraseIdx k) : a.fd ≠ e.fd := by
  obtain ⟨j, hjk, hj⟩ := List.mem_eraseIdx_iff_getElem?.1 ha
  intro hfd
  have hlt : j < (l.map (·.fd)).length := by
    rw [List.length_map]
    exact (List.getElem?_eq_some_iff.1 hj).1
  refine hjk ((List.getElem?_inj hlt hnodup).1 ?_)
  rw [List.getElem?_map, List.getElem?_map, hj, hk, Option.map_some, Option.map_some, hfd]

theorem ClosesOwn.mono (h : s'.ClosesOwn) (hcloses : s.closes <+: s'.closes)
    (herases : s.erases <+: s'.erases) : s.ClosesOwn where
  hit c hc := h.hit c (hcloses.subset hc)
  once := h.once.sublist (hcloses.sublist.map _)
  erased e he := h.erased e (herases.subset he)

theorem Dropped.mono (h : s.Dropped i) (hcloses : s.closes <+: s'.closes) : s'.Dropped i := by
  obtain ⟨c, hc, hcaller⟩ := h
  exact ⟨c, hcloses.subset hc, hcaller⟩

/-- Closed once is what hitting the right connection comes to. -/
theorem Files.closesOwn_iff (h : s.Files) : s.ClosesOwn ↔
    (∀ c ∈ s.closes, c.hit = some c.meant) ∧ ∀ e ∈ s.erases, e.2 = e.1 := by
  refine ⟨fun hown => ⟨hown.hit, hown.erased⟩, fun ⟨hhit, herased⟩ => ⟨hhit, ?_, herased⟩⟩
  have hmeant : s.closes.map (·.meant) = s.closes.filterMap (·.hit) := by
    rw [← List.filterMap_eq_map]
    exact (List.filterMap_congr hhit).symm
  rw [hmeant, h.hits]
  exact h.table.nodup

theorem live_of_nobody (hm : s.mutex = .nobody) : s.live = s.clients := by
  unfold live closedAt
  rw [hm]

/-! ### One lemma for each operation -/

theorem Inv.setPhase (h : s.Inv) (hi : s.phase i ≠ .unstarted) (hx : x ≠ .unstarted)
    (hearly : x.Early → (s.phase i).Early) (hlisting : x.Listing → (s.phase i).Listing)
    (hfound : x = .leaving ∨ s.phase i ≠ .leaving ∨ s.mutex = .nobody) :
    (s.setPhase i x).Inv where
  toFiles := h.toFiles.setPhase hi hx
  early := by
    refine (Function.forall_update_iff s.phase
      fun j y => y.Early → s.table.object (s.fd j) = some j).2 ⟨fun hx => ?_, fun j _ => h.early j⟩
    exact h.early i (hearly hx)
  listed a ha := by
    obtain ⟨hobject, hphase⟩ := h.listed a ha
    have hback : ∀ j, (Function.update s.phase i x j).Early → (s.phase j).Early :=
      (Function.forall_update_iff s.phase fun j y => y.Early → (s.phase j).Early).2
        ⟨hearly, fun _ _ => id⟩
    exact ⟨hobject, fun hnow => hphase (hback _ hnow)⟩
  nodup := h.nodup
  dropping := h.dropping
  found j k hm := by
    obtain ⟨hphase, hfind⟩ := h.found j k hm
    refine ⟨?_, hfind⟩
    show Function.update s.phase i x j = _
    by_cases hji : j = i
    · subst hji
      rw [Function.update_self]
      rcases hfound with hx | hne | hm'
      · exact hx
      · exact absurd hphase hne
      · rw [show s.mutex = .handler j k from hm] at hm'
        cases hm'
    · rwa [Function.update_of_ne hji]
  own hown := by
    have hold := h.own (hown.mono (List.prefix_refl _) (List.prefix_refl _))
    exact (Function.forall_update_iff s.phase
      fun j y => y.Listing → ¬ s.Dropped j → Listed.mk (s.fd j) j ∈ s.clients).2
        ⟨fun hx => hold i (hlisting hx), fun j _ => hold j⟩

theorem Inv.accept (h : s.Inv) (hfree : s.table.object n = none) : (s.accept n).Inv where
  toFiles := h.toFiles.accept
  early j hj := by
    show (s.table.openAt n s.accepted).object (Function.update s.fd s.accepted n j) = some j
    by_cases hnew : j = s.accepted
    · subst hnew
      rw [Function.update_self, HandleTable.openAt_self]
    · have hobject := h.early j (Function.update_of_ne hnew .handshaking s.phase ▸ hj)
      rw [Function.update_of_ne hnew, HandleTable.openAt_ne, hobject]
      rintro heq
      rw [heq, hfree] at hobject
      cases hobject
  listed a ha := by
    obtain ⟨hobject, hphase⟩ := h.listed a ha
    have hne : a.fd ≠ n := by
      intro heq
      rw [heq, hfree] at hobject
      cases hobject
    have hold : a.conn ≠ s.accepted := fun heq =>
      (h.owner a.fd a.conn hobject).1 (heq ▸ (h.fresh _ (Nat.le_refl _)).1)
    refine ⟨(HandleTable.openAt_ne hne).trans hobject, fun hnow => hphase ?_⟩
    exact Function.update_of_ne hold .handshaking s.phase ▸ hnow
  nodup := h.nodup
  dropping := h.dropping
  found j k hm := by
    obtain ⟨hphase, hfind⟩ := h.found j k hm
    have hold : j ≠ s.accepted := by
      rintro rfl
      rw [(h.fresh _ (Nat.le_refl _)).1] at hphase
      cases hphase
    exact ⟨(Function.update_of_ne hold _ _).trans hphase, hfind⟩
  own hown j hj hdropped := by
    have hold : j ≠ s.accepted := by
      rintro rfl
      have : (s.accept n).phase s.accepted = .handshaking := Function.update_self _ _ _
      rw [this] at hj
      exact absurd hj (by decide)
    have := h.own (hown.mono (List.prefix_refl _) (List.prefix_refl _)) j
      (Function.update_of_ne hold .handshaking s.phase ▸ hj) hdropped
    show Listed.mk (Function.update s.fd s.accepted n j) j ∈ s.clients
    rwa [Function.update_of_ne hold]

/-- Only the connection itself is early under the number of an early one. -/
theorem Inv.listed_fd_ne (h : s.Inv) (hi : (s.phase i).Early) (he : e ∈ s.live) :
    e.fd ≠ s.fd i := by
  intro hfd
  obtain ⟨hobject, hphase⟩ := h.listed e he
  rw [hfd, h.early i hi] at hobject
  exact hphase (Option.some.inj hobject ▸ hi)

theorem Inv.refuse (h : s.Inv) (hi : s.phase i = .handshaking) : (s.refuse i).Inv where
  toFiles := by
    refine h.toFiles.closeFd.setPhase (x := .ended) ?_ ThreadPhase.noConfusion
    show s.phase i ≠ _
    rw [hi]
    exact ThreadPhase.noConfusion
  early := by
    refine (Function.forall_update_iff s.phase fun j y =>
      y.Early → (s.table.close (s.fd i)).object (s.fd j) = some j).2
        ⟨fun hx => absurd hx (by decide), fun j hji hj => ?_⟩
    have hobject := h.early j hj
    refine (HandleTable.close_ne fun hfd => ?_).trans hobject
    rw [hfd, h.early i (Or.inl hi)] at hobject
    exact hji (Option.some.inj hobject).symm
  listed a ha := by
    have hne := h.listed_fd_ne (Or.inl hi) ha
    obtain ⟨hobject, hphase⟩ := h.listed a ha
    have hai : a.conn ≠ i := by
      intro heq
      rw [heq] at hphase
      exact hphase (Or.inl hi)
    refine ⟨(HandleTable.close_ne hne).trans hobject, fun hnow => hphase ?_⟩
    exact Function.update_of_ne hai .ended s.phase ▸ hnow
  nodup := h.nodup
  dropping k hm := by
    obtain ⟨e, hk, hdropped⟩ := h.dropping k hm
    exact ⟨e, hk, hdropped.mono (List.prefix_append _ _)⟩
  found j k hm := by
    obtain ⟨hphase, e, hk, hclose⟩ := h.found j k hm
    have hji : j ≠ i := by
      rintro rfl
      rw [hi] at hphase
      cases hphase
    exact ⟨(Function.update_of_ne hji _ _).trans hphase, e, hk, List.mem_append_left _ hclose⟩
  own hown := by
    have hold := h.own (hown.mono (List.prefix_append _ _) (List.prefix_refl _))
    refine (Function.forall_update_iff s.phase fun j y =>
      y.Listing → ¬ (s.refuse i).Dropped j → Listed.mk (s.fd j) j ∈ s.clients).2
        ⟨fun hx => absurd hx (by decide), fun j _ hj hdropped => hold j hj fun hd => hdropped ?_⟩
    exact hd.mono (List.prefix_append _ _)

theorem Inv.push (h : s.Inv) (hi : s.phase i = .pushing) (hm : s.mutex = .nobody) :
    (s.push i).Inv where
  toFiles := by
    have : ({ s with clients := s.clients ++ [Listed.mk (s.fd i) i] } : Clients).Files :=
      ⟨h.table, h.hits, h.fresh, h.owner⟩
    refine this.setPhase ?_ ThreadPhase.noConfusion
    show s.phase i ≠ _
    rw [hi]
    exact ThreadPhase.noConfusion
  early :=
    (Function.forall_update_iff s.phase fun j y => y.Early → s.table.object (s.fd j) = some j).2
      ⟨fun hx => absurd hx (by decide), fun j _ => h.early j⟩
  listed a ha := by
    have hserving : (s.push i).phase i = .serving := Function.update_self _ _ _
    rw [live_of_nobody (show (s.push i).mutex = _ from hm)] at ha
    rcases List.mem_append.1 ha with ha | ha
    · rw [← live_of_nobody hm] at ha
      obtain ⟨hobject, hphase⟩ := h.listed a ha
      have hai : a.conn ≠ i := by
        intro heq
        rw [heq] at hphase
        exact hphase (Or.inr hi)
      exact ⟨hobject, fun hnow =>
        hphase (Function.update_of_ne hai .serving s.phase ▸ hnow)⟩
    · rw [List.mem_singleton] at ha
      subst ha
      refine ⟨h.early i (Or.inr hi), ?_⟩
      rw [hserving]
      decide
  nodup := by
    rw [live_of_nobody (show (s.push i).mutex = _ from hm)]
    show ((s.clients ++ [Listed.mk (s.fd i) i]).map (·.fd)).Nodup
    rw [← live_of_nobody hm, List.map_append, List.nodup_append]
    refine ⟨h.nodup, List.nodup_singleton _, fun n hn n' hn' => ?_⟩
    obtain ⟨a, ha, rfl⟩ := List.mem_map.1 hn
    obtain rfl := List.mem_singleton.1 hn'
    exact h.listed_fd_ne (Or.inr hi) ha
  dropping k hk := by
    rw [show (s.push i).mutex = s.mutex from rfl, hm] at hk
    cases hk
  found j k hk := by
    rw [show (s.push i).mutex = s.mutex from rfl, hm] at hk
    cases hk
  own hown := by
    have hold := h.own (hown.mono (List.prefix_refl _) (List.prefix_refl _))
    refine (Function.forall_update_iff s.phase fun j y => y.Listing → ¬ s.Dropped j →
      Listed.mk (s.fd j) j ∈ s.clients ++ [Listed.mk (s.fd i) i]).2 ⟨fun _ _ => ?_, ?_⟩
    · exact List.mem_append_right _ (List.mem_singleton_self _)
    · exact fun j _ hj hdropped => List.mem_append_left _ (hold j hj hdropped)

/-- The number of the `k`-th client is closed, and the mutex is held until it is erased. -/
theorem Inv.closeAt (h : s.Inv) {m : Holder} (hclosed : s.closedAt = none)
    (hk : s.clients[k]? = some e)
    (hm : ({ s.closeFd caller meant e.fd with mutex := m } : Clients).closedAt = some k)
    (hdropping : ∀ k', m = .dropping k' → k' = k ∧ caller = none ∧ meant = e.conn)
    (hfound : ∀ i k', m = .handler i k' → k' = k ∧ caller = some i ∧ meant = i ∧
      s.phase i = .leaving) :
    ({ s.closeFd caller meant e.fd with mutex := m } : Clients).Inv := by
  have hlive : s.live = s.clients := by
    unfold live
    rw [hclosed]
  have hlive' : ({ s.closeFd caller meant e.fd with mutex := m } : Clients).live
      = s.clients.eraseIdx k := by
    unfold live
    rw [hm]
    rfl
  have he : e ∈ s.live := hlive ▸ List.mem_of_getElem? hk
  obtain ⟨hobject, hphase⟩ := h.listed e he
  have hnodup : (s.clients.map (·.fd)).Nodup := hlive ▸ h.nodup
  have hlast : Close.mk caller meant (some e.conn) ∈ (s.closeFd caller meant e.fd).closes := by
    refine List.mem_append_right _ ?_
    rw [hobject]
    exact List.mem_singleton_self _
  have hfiles : (s.closeFd caller meant e.fd).Files := h.toFiles.closeFd
  refine ⟨⟨hfiles.table, hfiles.hits, hfiles.fresh, hfiles.owner⟩, fun j hj => ?_,
    fun a ha => ?_, ?_, fun k' hk' => ?_, fun i k' hk' => ?_, fun hown j hj hdropped => ?_⟩
  · have hearly := h.early j hj
    exact (HandleTable.close_ne (h.listed_fd_ne hj he).symm).trans hearly
  · rw [hlive'] at ha
    have hne := fd_ne_of_mem_eraseIdx hnodup hk ha
    obtain ⟨hobject', hphase'⟩ := h.listed a (hlive ▸ List.mem_of_mem_eraseIdx ha)
    exact ⟨(HandleTable.close_ne hne).trans hobject', hphase'⟩
  · rw [hlive']
    exact hnodup.sublist ((List.eraseIdx_sublist _ _).map _)
  · obtain ⟨rfl, rfl, rfl⟩ := hdropping k' hk'
    exact ⟨e, hk, _, hlast, rfl, rfl⟩
  · obtain ⟨rfl, rfl, rfl, hi⟩ := hfound i k' hk'
    exact ⟨hi, e, hk, hlast⟩
  · refine h.own (hown.mono (List.prefix_append _ _) (List.prefix_refl _)) j hj fun hold => ?_
    exact hdropped (hold.mono (List.prefix_append _ _))

theorem Inv.closeFound (h : s.Inv) (hi : s.phase i = .leaving) (hm : s.mutex = .nobody)
    (hk : s.clients[k]? = some e) (hfd : e.fd = s.fd i) : (s.closeFound i k).Inv := by
  have hclosed : s.closedAt = none := by
    unfold closedAt
    rw [hm]
  unfold Clients.closeFound
  rw [← hfd]
  refine h.closeAt hclosed hk rfl (fun k' hk' => ?_) fun j k' hk' => ?_
  · cases hk'
  · obtain ⟨rfl, rfl⟩ := Holder.handler.inj hk'
    exact ⟨rfl, rfl, rfl, hi⟩

theorem Inv.drop (h : s.Inv) (hm : s.mutex = .publish k) (hk : s.clients[k]? = some e) :
    (s.drop k e).Inv := by
  have hclosed : s.closedAt = none := by
    unfold closedAt
    rw [hm]
  refine h.closeAt hclosed hk rfl (fun k' hk' => ?_) fun j k' hk' => ?_
  · obtain rfl := Holder.dropping.inj hk'
    exact ⟨rfl, rfl, rfl⟩
  · cases hk'

theorem Inv.eraseFound (h : s.Inv) (hm : s.mutex = .handler i k) : (s.eraseFound i k).Inv := by
  obtain ⟨hi, e, hk, -⟩ := h.found i k hm
  have hlive : s.live = s.clients.eraseIdx k := by
    unfold live closedAt
    rw [hm]
  have hended : (s.eraseFound i k).phase i = .ended := Function.update_self _ _ _
  refine ⟨?_, ?_, fun a ha => ?_, ?_, fun k' hk' => ?_, fun j k' hk' => ?_, fun hown => ?_⟩
  · refine Files.setPhase ⟨h.table, h.hits, h.fresh, h.owner⟩ ?_ ThreadPhase.noConfusion
    show s.phase i ≠ _
    rw [hi]
    exact ThreadPhase.noConfusion
  · exact (Function.forall_update_iff s.phase
      fun j y => y.Early → s.table.object (s.fd j) = some j).2
        ⟨fun hx => absurd hx (by decide), fun j _ => h.early j⟩
  · obtain ⟨hobject, hphase⟩ := h.listed a (by rw [hlive]; exact ha)
    refine ⟨hobject, fun hnow => ?_⟩
    by_cases hai : a.conn = i
    · rw [hai, hended] at hnow
      rcases hnow with hnow | hnow <;> cases hnow
    · exact hphase (Function.update_of_ne hai .ended s.phase ▸ hnow)
  · have := h.nodup
    rwa [hlive] at this
  · cases hk'
  · cases hk'
  · have hold := h.own (hown.mono (List.prefix_refl _) (List.prefix_append _ _))
    refine (Function.forall_update_iff s.phase fun j y => y.Listing → ¬ s.Dropped j →
      Listed.mk (s.fd j) j ∈ s.clients.eraseIdx k).2
        ⟨fun hx => absurd hx (by decide), fun j hji hj hdropped => ?_⟩
    refine mem_eraseIdx_of_ne hk (hold j hj hdropped) ?_
    rintro rfl
    refine hji (hown.erased (i, j) (List.mem_append_right _ ?_))
    rw [hk]
    exact List.mem_singleton_self _

theorem Inv.eraseDropped (h : s.Inv) (hm : s.mutex = .dropping k) : (s.eraseDropped k).Inv := by
  obtain ⟨e, hk, he⟩ := h.dropping k hm
  have hlive : s.live = s.clients.eraseIdx k := by
    unfold live closedAt
    rw [hm]
  refine ⟨⟨h.table, h.hits, h.fresh, h.owner⟩, h.early, fun a ha => ?_, ?_, fun k' hk' => ?_,
    fun j k' hk' => ?_, fun hown j hj hdropped => ?_⟩
  · exact h.listed a (by rw [hlive]; exact ha)
  · have := h.nodup
    rwa [hlive] at this
  · cases hk'
  · cases hk'
  · have hmem := h.own (hown.mono (List.prefix_refl _) (List.prefix_refl _)) j hj hdropped
    refine mem_eraseIdx_of_ne hk hmem ?_
    rintro rfl
    exact hdropped he

/-- The mutex is taken, passed on to the next client, or given back. -/
theorem Inv.setMutex (h : s.Inv) {m : Holder} (hclosed : s.closedAt = none)
    (hm : m = .nobody ∨ ∃ k, m = .publish k) : ({ s with mutex := m } : Clients).Inv := by
  have hlive : ({ s with mutex := m } : Clients).live = s.live := by
    unfold live
    rw [hclosed]
    rcases hm with rfl | ⟨k, rfl⟩ <;> rfl
  refine ⟨⟨h.table, h.hits, h.fresh, h.owner⟩, h.early, fun a ha => ?_, ?_, fun k hk => ?_,
    fun j k hk => ?_, fun hown => ?_⟩
  · exact h.listed a (hlive ▸ ha)
  · rw [hlive]
    exact h.nodup
  · rcases hm with hm | ⟨k', hm⟩ <;> cases hm.symm.trans hk
  · rcases hm with hm | ⟨k', hm⟩ <;> cases hm.symm.trans hk
  · exact h.own (hown.mono (List.prefix_refl _) (List.prefix_refl _))

/-! ### A step -/

theorem findIdx?_fd (hk : s.clients.findIdx? (·.fd == n) = some k) :
    ∃ e, s.clients[k]? = some e ∧ e.fd = n := by
  obtain ⟨hlt, hfd, -⟩ := List.findIdx?_eq_some_iff_getElem.1 hk
  exact ⟨_, List.getElem?_eq_getElem hlt, beq_iff_eq.1 hfd⟩

theorem Inv.handlerStep (h : s.Inv) (ok : Bool) : (s.handlerStep i ok).Inv := by
  unfold Clients.handlerStep
  split
  · exact h
  · next hi =>
      split
      · refine h.setPhase ?_ ThreadPhase.noConfusion ?_ ?_ (Or.inr (Or.inl ?_)) <;> rw [hi] <;>
          decide
      · exact h.refuse hi
  · next hi =>
      split
      · next hm => exact h.push hi hm
      · exact h
  · next hi =>
      split
      · exact h
      · refine h.setPhase ?_ ThreadPhase.noConfusion ?_ ?_ (Or.inl rfl) <;> rw [hi] <;> decide
  · next hi =>
      split
      · next hm =>
          split
          · next k hk =>
              obtain ⟨e, hk, hfd⟩ := findIdx?_fd hk
              exact h.closeFound hi hm hk hfd
          · refine h.setPhase ?_ ThreadPhase.noConfusion ?_ ?_ (Or.inr (Or.inr hm)) <;> rw [hi] <;>
              decide
      · next j k hm =>
          split
          · next hji => exact h.eraseFound (hji ▸ hm)
          · exact h
      · exact h
      · exact h
  · exact h

theorem Inv.publishStep (h : s.Inv) (ok : Bool) : (s.publishStep ok).Inv := by
  unfold Clients.publishStep
  split
  · next hm => exact h.setMutex (by rw [closedAt, hm]) (Or.inr ⟨0, rfl⟩)
  · next k hm =>
      have hclosed : s.closedAt = none := by rw [closedAt, hm]
      split
      · next e hk =>
          split
          · exact h.setMutex hclosed (Or.inr ⟨k + 1, rfl⟩)
          · exact h.drop hm hk
      · exact h.setMutex hclosed (Or.inl rfl)
  · next k hm => exact h.eraseDropped hm
  · exact h

theorem Inv.step (h : s.Inv) (t : ClientTurn) : (s.step t).Inv := by
  cases t with
  | accept fd =>
      show (if s.table.object fd = none then s.accept fd else s).Inv
      split
      · next hfree => exact h.accept hfree
      · exact h
  | handler i ok => exact h.handlerStep ok
  | publish ok => exact h.publishStep ok

theorem inv_start : ({} : Clients).Inv where
  table := HandleTable.inv_empty
  hits := rfl
  fresh _ _ := ⟨rfl, List.not_mem_nil⟩
  owner _ _ h := by cases h
  early _ h := absurd (show ThreadPhase.unstarted.Early from h) (by decide)
  listed _ h := by cases h
  nodup := List.nodup_nil
  dropping _ h := by cases h
  found _ _ h := by cases h
  own _ _ h := absurd (show ThreadPhase.unstarted.Listing from h) (by decide)

end

end Clients

end Mawmaw.Pub
