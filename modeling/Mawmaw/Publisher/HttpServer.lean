import Mathlib.Data.List.Perm.Basic
import Mawmaw.Core.Event
import Mawmaw.Lib.HandleTable
import Mawmaw.Lib.HttpResponse
import Mawmaw.Lib.Schedule
import Mawmaw.Publisher.HttpAnswers

/-!
# The HTTP endpoint as a server

Its accept thread, any number of detached handlers and the calls of `publish`, step by step. The
operating system may give a descriptor number again as soon as it has been closed.

* `HttpPhase`, `HttpServer`, `step` : how far each handler is, and one step;
* `Files` : what the numbers stand for; `Listing` : what `clients_` holds; `http_closes_own`;
* `shown` : what the endpoint shows after some calls of `publish`; `Answers` : what each handler has
  read and sent; `answers_fresh` : when its answer was current;
* `http_answers_whole` : what a client reads back.
-/

namespace Mawmaw.Pub
open Mawmaw.Lib Mawmaw.Core

variable {P : Nat}

/-! ## The code -/

/-- How far a handler is. `receiving` comes with the text received so far, `parsed` with the whole
request, `sending` with the answer. A `recv` that fails leads to `failed`. -/
inductive HttpPhase
  | unstarted
  | pushing
  | receiving (text : Str)
  | parsed (request : Str)
  | sending (response : Str)
  | failed
  | sent
  | removing
  | ended
  deriving DecidableEq

/-- The handler has its descriptor and has not closed it. -/
def HttpPhase.isOpen : HttpPhase → Bool
  | .unstarted | .removing | .ended => false
  | _ => true

/-- The handler's descriptor is in `clients_`. -/
def HttpPhase.listed : HttpPhase → Bool
  | .unstarted | .pushing | .ended => false
  | _ => true

/-- `fd i` is the number the `i`-th handler was started with. The rest is what happened: the events
published, and for each connection how many of them before it was accepted, what its `recv`s
returned, the answer with the number of events published before it was built, and the bytes sent.
`closes` are the calls of `close`, each with the connection its number stood for. -/
structure HttpServer (P : Nat) where
  payload : Str := []
  lastUpdate : UInt64 := 0
  table : HandleTable Nat := {}
  accepted : Nat := 0
  fd : Nat → Nat := fun _ => 0
  phase : Nat → HttpPhase := fun _ => .unstarted
  clients : List Nat := []
  published : List (Event P) := []
  arrived : Nat → Nat := fun _ => 0
  recvs : Nat → List Received := fun _ => []
  answer : Nat → Option (Nat × Str) := fun _ => none
  wire : Nat → Str := fun _ => []
  closes : List (Nat × Option Nat) := []

/-- `fd`: the number the operating system gives. `r`: what `recv` returns, if the step is one; `n`:
how many bytes `send` accepts. -/
inductive HttpTurn (P : Nat)
  | publish (ev : Event P)
  | accept (fd : Nat)
  | handler (i : Nat) (r : Received) (n : Nat)

namespace HttpServer

def setPhase (s : HttpServer P) (i : Nat) (x : HttpPhase) : HttpServer P :=
  { s with phase := Function.update s.phase i x }

@[simp] theorem setPhase_self (s : HttpServer P) (i : Nat) (x : HttpPhase) :
    (s.setPhase i x).phase i = x := Function.update_self ..

theorem setPhase_ne (s : HttpServer P) {i j : Nat} (x : HttpPhase) (h : j ≠ i) :
    (s.setPhase i x).phase j = s.phase j := Function.update_of_ne h ..

/-- Replaces the stored payload. -/
def publish (s : HttpServer P) (ev : Event P) : HttpServer P :=
  { s with
    payload := ev.bytes
    lastUpdate := ev.timestampNs
    published := s.published ++ [ev] }

/-- The accept thread starts a handler. -/
def accept (s : HttpServer P) (fd : Nat) : HttpServer P :=
  { s with
    table := s.table.openAt fd s.accepted
    accepted := s.accepted + 1
    fd := Function.update s.fd s.accepted fd
    phase := Function.update s.phase s.accepted .pushing
    arrived := Function.update s.arrived s.accepted s.published.length }

/-- One `recv`. -/
def receive (s : HttpServer P) (i : Nat) (text : Str) (r : Received) : HttpServer P :=
  { s with recvs := Function.update s.recvs i (s.recvs i ++ [r]) }.setPhase i
    (match r with
      | .failed => .failed
      | .closed => .parsed text
      | .bytes piece =>
        if hasBlankLine (text ++ piece) then .parsed (text ++ piece) else .receiving (text ++ piece))

/-- The answer is built; it shows the payload as it is now. -/
def build (path contentType : Str) (s : HttpServer P) (i : Nat) (request : Str) : HttpServer P :=
  let method := nextWord request
  let response := HttpEndpoint.response ⟨path, contentType, s.payload⟩ method.1 (nextWord method.2).1
  { s with answer := Function.update s.answer i (some (s.published.length, response)) }.setPhase i
    (.sending response)

/-- The one `send`. -/
def put (s : HttpServer P) (i : Nat) (response : Str) (n : Nat) : HttpServer P :=
  let wire := match s.table.object (s.fd i) with
    | some o => Function.update s.wire o (s.wire o ++ response.take n)
    | none => s.wire
  { s with wire }.setPhase i .sent

def close (s : HttpServer P) (i : Nat) : HttpServer P :=
  { s with
    table := s.table.close (s.fd i)
    closes := s.closes ++ [(i, s.table.object (s.fd i))] }.setPhase i .removing

def handlerStep (path contentType : Str) (s : HttpServer P) (i : Nat) (r : Received) (n : Nat) :
    HttpServer P :=
  match s.phase i with
  | .unstarted | .ended => s
  | .pushing => { s with clients := s.clients ++ [s.fd i] }.setPhase i (.receiving [])
  | .receiving text => s.receive i text r
  | .parsed request => s.build path contentType i request
  | .sending response => s.put i response n
  | .failed | .sent => s.close i
  | .removing => { s with clients := s.clients.erase (s.fd i) }.setPhase i .ended

def step (path contentType : Str) (s : HttpServer P) : HttpTurn P → HttpServer P
  | .publish ev => s.publish ev
  | .accept fd => if s.table.object fd = none then s.accept fd else s
  | .handler i r n => s.handlerStep path contentType i r n

def run (path contentType : Str) (turns : List (HttpTurn P)) : HttpServer P :=
  turns.foldl (step path contentType) {}

/-! ## Descriptors -/

/-- An open handler's number stands for its own connection, and every `close` hit its own. -/
structure Files (s : HttpServer P) : Prop where
  table : s.table.Inv
  own : ∀ i, (s.phase i).isOpen = true → s.table.object (s.fd i) = some i
  opened : ∀ n i, s.table.object n = some i → i < s.accepted ∧ (s.phase i).isOpen = true
  later : ∀ i, s.accepted ≤ i → s.phase i = .unstarted
  closed : ∀ i, i ∈ s.table.closed → i < s.accepted
  hit : ∀ c ∈ s.closes, c.2 = some c.1
  closes : s.closes.filterMap (·.2) = s.table.closed

theorem files_start : ({} : HttpServer P).Files where
  table := HandleTable.inv_empty
  own _ h := by cases h
  opened _ _ h := by cases h
  later _ _ := rfl
  closed _ h := by cases h
  hit _ h := by cases h
  closes := rfl

/-- A step of a handler that touches no descriptor. -/
theorem Files.setPhase {s s' : HttpServer P} (h : s.Files) {i : Nat} {x : HttpPhase}
    (htable : s'.table = s.table) (haccepted : s'.accepted = s.accepted) (hfd : s'.fd = s.fd)
    (hphase : s'.phase = s.phase) (hcloses : s'.closes = s.closes)
    (hx : x.isOpen = (s.phase i).isOpen) (hi : s.phase i ≠ .unstarted) :
    (s'.setPhase i x).Files := by
  have hopen : ∀ j, ((s'.setPhase i x).phase j).isOpen = (s.phase j).isOpen := by
    intro j
    by_cases hji : j = i
    · subst hji
      rw [setPhase_self, hx]
    · rw [setPhase_ne _ _ hji, hphase]
  refine ⟨?_, fun j hj => ?_, fun n j hj => ?_, fun j hj => ?_, fun j hj => ?_, fun c hc => ?_, ?_⟩
  · exact htable ▸ h.table
  · rw [hopen] at hj
    show s'.table.object (s'.fd j) = some j
    rw [htable, hfd]
    exact h.own j hj
  · rw [hopen]
    show j < s'.accepted ∧ _
    rw [haccepted]
    exact h.opened n j (htable ▸ hj)
  · have hj' : s.accepted ≤ j := haccepted ▸ hj
    have hne : j ≠ i := fun heq => hi (heq ▸ h.later j hj')
    rw [setPhase_ne _ _ hne, hphase]
    exact h.later j hj'
  · show j < s'.accepted
    rw [haccepted]
    exact h.closed j (htable ▸ hj)
  · exact h.hit c (hcloses ▸ hc)
  · show s'.closes.filterMap (·.2) = s'.table.closed
    rw [hcloses, htable]
    exact h.closes

theorem Files.accept {s : HttpServer P} (h : s.Files) {fd : Nat}
    (hfree : s.table.object fd = none) : (s.accept fd).Files := by
  have hnew : ∀ n, s.table.object n ≠ some s.accepted := fun n hn =>
    absurd (h.opened n _ hn).1 (Nat.lt_irrefl _)
  have hold : ∀ j, (s.phase j).isOpen = true → j ≠ s.accepted := by
    rintro j hj rfl
    rw [h.later _ (Nat.le_refl _)] at hj
    cases hj
  refine ⟨h.table.openAt hnew fun hc => absurd (h.closed _ hc) (Nat.lt_irrefl _), fun j hj => ?_,
    fun n j hj => ?_, fun j hj => ?_, fun j hj => ?_, h.hit, h.closes⟩
  · show (s.table.openAt fd s.accepted).object (Function.update s.fd s.accepted fd j) = some j
    by_cases hja : j = s.accepted
    · rw [hja, Function.update_self, HandleTable.openAt_self]
    · have hj' : (s.phase j).isOpen = true := by
        have : (s.accept fd).phase j = s.phase j := Function.update_of_ne hja ..
        rwa [this] at hj
      have hown := h.own j hj'
      rw [Function.update_of_ne hja, HandleTable.openAt_ne, hown]
      rintro heq
      rw [heq, hfree] at hown
      cases hown
  · show j < s.accepted + 1 ∧ (Function.update s.phase s.accepted .pushing j).isOpen = true
    by_cases hn : n = fd
    · have hj' : s.accepted = j := by
        have hobject : (s.table.openAt fd s.accepted).object n = some j := hj
        rw [hn, HandleTable.openAt_self] at hobject
        exact Option.some.inj hobject
      rw [← hj', Function.update_self]
      exact ⟨Nat.lt_succ_self _, rfl⟩
    · have hobject : (s.table.openAt fd s.accepted).object n = some j := hj
      rw [HandleTable.openAt_ne hn] at hobject
      obtain ⟨hlt, hopen⟩ := h.opened n j hobject
      rw [Function.update_of_ne (hold j hopen)]
      exact ⟨Nat.lt_succ_of_lt hlt, hopen⟩
  · have hlt : s.accepted + 1 ≤ j := hj
    show Function.update s.phase s.accepted .pushing j = .unstarted
    rw [Function.update_of_ne (by omega)]
    exact h.later j (by omega)
  · exact Nat.lt_succ_of_lt (h.closed j hj)

theorem Files.close {s : HttpServer P} (h : s.Files) {i : Nat}
    (hi : (s.phase i).isOpen = true) : (s.close i).Files := by
  have hown := h.own i hi
  have hphase : ∀ j, j ≠ i → (s.close i).phase j = s.phase j := fun j hj =>
    Function.update_of_ne hj ..
  have hself : (s.close i).phase i = .removing := Function.update_self ..
  refine ⟨h.table.close, fun j hj => ?_, fun n j hj => ?_, fun j hj => ?_, fun j hj => ?_,
    fun c hc => ?_, ?_⟩
  · have hji : j ≠ i := by
      rintro rfl
      rw [hself] at hj
      cases hj
    rw [hphase j hji] at hj
    have hownj := h.own j hj
    show (s.table.close (s.fd i)).object (s.fd j) = some j
    rw [HandleTable.close_ne, hownj]
    intro heq
    rw [heq, hown] at hownj
    exact hji (Option.some.inj hownj).symm
  · obtain ⟨hne, hobject⟩ := HandleTable.close_some (show (s.table.close (s.fd i)).object n = some j
      from hj)
    have hji : j ≠ i := by
      rintro rfl
      exact hne (h.table.unique n (s.fd j) j hobject hown)
    rw [hphase j hji]
    exact h.opened n j hobject
  · have hji : j ≠ i := by
      rintro rfl
      rw [h.later j hj] at hi
      cases hi
    rw [hphase j hji]
    exact h.later j hj
  · have hclosed : j ∈ s.table.closed ++ (s.table.object (s.fd i)).toList := hj
    rw [List.mem_append, Option.mem_toList] at hclosed
    rcases hclosed with hclosed | hobject
    · exact h.closed j hclosed
    · exact (h.opened _ j hobject).1
  · rcases List.mem_append.mp (show c ∈ s.closes ++ [(i, s.table.object (s.fd i))] from hc) with
      hc | hc
    · exact h.hit c hc
    · rw [List.mem_singleton.mp hc]
      exact hown
  · show (s.closes ++ [(i, s.table.object (s.fd i))]).filterMap (·.2)
      = s.table.closed ++ (s.table.object (s.fd i)).toList
    rw [List.filterMap_append, h.closes, hown]
    rfl

theorem Files.step (path contentType : Str) {s : HttpServer P} (h : s.Files) (t : HttpTurn P) :
    (s.step path contentType t).Files := by
  cases t with
  | publish ev => exact ⟨h.table, h.own, h.opened, h.later, h.closed, h.hit, h.closes⟩
  | accept fd =>
      rw [HttpServer.step]
      split
      · rename_i hfree
        exact h.accept hfree
      · exact h
  | handler i r n =>
      rw [HttpServer.step, handlerStep]
      cases hi : s.phase i with
      | unstarted | ended => exact h
      | failed | sent => exact h.close (by rw [hi]; rfl)
      | pushing => exact h.setPhase rfl rfl rfl rfl rfl (by rw [hi]; rfl) (by rw [hi]; simp)
      | parsed request => exact h.setPhase rfl rfl rfl rfl rfl (by rw [hi]; rfl) (by rw [hi]; simp)
      | sending response =>
          exact h.setPhase rfl rfl rfl rfl rfl (by rw [hi]; rfl) (by rw [hi]; simp)
      | removing => exact h.setPhase rfl rfl rfl rfl rfl (by rw [hi]; rfl) (by rw [hi]; simp)
      | receiving text =>
          refine h.setPhase rfl rfl rfl rfl rfl ?_ (by rw [hi]; simp)
          rw [hi]
          cases r with
          | closed | failed => rfl
          | bytes piece =>
              dsimp only
              split <;> rfl

/-! ## The list of clients -/

/-- The handlers whose descriptors are in `clients_`. -/
def listed (s : HttpServer P) : List Nat :=
  (List.range s.accepted).filter fun i => (s.phase i).listed

theorem mem_listed {s : HttpServer P} {i : Nat} :
    i ∈ s.listed ↔ i < s.accepted ∧ (s.phase i).listed = true := by
  rw [listed, List.mem_filter, List.mem_range]

theorem nodup_listed (s : HttpServer P) : s.listed.Nodup := List.nodup_range.filter _

/-- `clients_` holds the numbers of the handlers between their push and their removal. -/
def Listing (s : HttpServer P) : Prop := s.clients.Perm (s.listed.map s.fd)

theorem listed_congr {s s' : HttpServer P} (haccepted : s'.accepted = s.accepted)
    (hphase : ∀ i, (s'.phase i).listed = (s.phase i).listed) : s'.listed = s.listed := by
  rw [listed, listed, haccepted]
  congr 1
  funext i
  rw [hphase]

/-- One handler more is listed. -/
theorem listed_gain {s s' : HttpServer P} {i : Nat} (haccepted : s'.accepted = s.accepted)
    (hlt : i < s.accepted) (hbefore : (s.phase i).listed = false)
    (hafter : (s'.phase i).listed = true)
    (hother : ∀ j, j ≠ i → (s'.phase j).listed = (s.phase j).listed) :
    s'.listed.Perm (i :: s.listed) := by
  have hnot : i ∉ s.listed := fun hmem => by
    rw [(mem_listed.mp hmem).2] at hbefore
    cases hbefore
  refine (List.perm_ext_iff_of_nodup s'.nodup_listed
    (List.nodup_cons.mpr ⟨hnot, s.nodup_listed⟩)).mpr fun j => ?_
  rw [List.mem_cons, mem_listed, mem_listed, haccepted]
  by_cases hji : j = i
  · subst hji
    exact iff_of_true ⟨hlt, hafter⟩ (Or.inl rfl)
  · rw [hother j hji]
    simp [hji]

/-- A step of a handler that changes neither the list nor whether it is in it. -/
theorem Listing.setPhase {s s' : HttpServer P} (h : s.Listing) {i : Nat} {x : HttpPhase}
    (haccepted : s'.accepted = s.accepted) (hfd : s'.fd = s.fd) (hphase : s'.phase = s.phase)
    (hclients : s'.clients = s.clients) (hx : x.listed = (s.phase i).listed) :
    (s'.setPhase i x).Listing := by
  have hlisted : (s'.setPhase i x).listed = s.listed := by
    refine listed_congr haccepted fun j => ?_
    by_cases hji : j = i
    · subst hji
      rw [setPhase_self, hx]
    · rw [setPhase_ne _ _ hji, hphase]
  have hsame : ((s'.setPhase i x).clients).Perm (((s'.setPhase i x).listed).map s'.fd) := by
    rw [hlisted, hfd]
    exact hclients ▸ h
  exact hsame

theorem Listing.accept {s : HttpServer P} (h : s.Listing) (fd : Nat) : (s.accept fd).Listing := by
  have hlisted : (s.accept fd).listed = s.listed := by
    have hlast : ((s.accept fd).phase s.accepted).listed = false := by
      show (Function.update s.phase s.accepted .pushing s.accepted).listed = false
      rw [Function.update_self]
      rfl
    show (List.range (s.accepted + 1)).filter _ = _
    rw [List.range_succ, List.filter_append, List.filter_cons_of_neg (by simp [hlast]),
      List.filter_nil, List.append_nil]
    refine List.filter_congr fun j hj => ?_
    have hne : j ≠ s.accepted := Nat.ne_of_lt (List.mem_range.mp hj)
    show (Function.update s.phase s.accepted .pushing j).listed = _
    rw [Function.update_of_ne hne]
  have hfds : s.listed.map (s.accept fd).fd = s.listed.map s.fd := by
    refine List.map_congr_left fun j hj => ?_
    exact Function.update_of_ne (Nat.ne_of_lt (mem_listed.mp hj).1) ..
  show s.clients.Perm ((s.accept fd).listed.map (s.accept fd).fd)
  rw [hlisted, hfds]
  exact h

theorem Listing.step (path contentType : Str) {s : HttpServer P} (hf : s.Files) (h : s.Listing)
    (t : HttpTurn P) : (s.step path contentType t).Listing := by
  have hstarted : ∀ i, s.phase i ≠ .unstarted → i < s.accepted := fun i hi =>
    Nat.lt_of_not_le fun hle => hi (hf.later i hle)
  cases t with
  | publish ev => exact h
  | accept fd =>
      rw [HttpServer.step]
      split
      · exact h.accept fd
      · exact h
  | handler i r n =>
      rw [HttpServer.step, handlerStep]
      cases hi : s.phase i with
      | unstarted | ended => exact h
      | failed | sent => exact h.setPhase rfl rfl rfl rfl (by rw [hi]; rfl)
      | parsed request => exact h.setPhase rfl rfl rfl rfl (by rw [hi]; rfl)
      | sending response => exact h.setPhase rfl rfl rfl rfl (by rw [hi]; rfl)
      | receiving text =>
          refine h.setPhase rfl rfl rfl rfl ?_
          rw [hi]
          cases r with
          | closed | failed => rfl
          | bytes piece =>
              dsimp only
              split <;> rfl
      | pushing =>
          have hgain : (HttpServer.setPhase { s with clients := s.clients ++ [s.fd i] } i
              (.receiving [])).listed.Perm (i :: s.listed) :=
            listed_gain rfl (hstarted i (by rw [hi]; simp)) (by rw [hi]; rfl)
              (by rw [setPhase_self]; rfl) fun j hj => by rw [setPhase_ne _ _ hj]
          refine List.Perm.trans ?_ (hgain.map s.fd).symm
          rw [List.map_cons]
          exact (List.perm_append_singleton _ _).trans (h.cons _)
      | removing =>
          have hgain : s.listed.Perm (i :: (HttpServer.setPhase
              { s with clients := s.clients.erase (s.fd i) } i .ended).listed) :=
            listed_gain rfl (hstarted i (by rw [hi]; simp)) (by rw [setPhase_self]; rfl)
              (by rw [hi]; rfl) fun j hj => by rw [setPhase_ne _ _ hj]
          have herase := (h.trans (hgain.map s.fd)).erase (s.fd i)
          rw [List.map_cons, List.erase_cons_head] at herase
          exact herase

/-- **A handler of the HTTP endpoint closes its own descriptor.** In every interleaving, however the
operating system gives numbers again, every `close` hits the connection it is made for, none is made
twice, and `clients_` holds exactly the numbers of the handlers between their push and their removal;
it is empty once all handlers have ended. -/
theorem http_closes_own (path contentType : Str) (turns : List (HttpTurn P)) :
    (∀ c ∈ (run path contentType turns).closes, c.2 = some c.1) ∧
    ((run path contentType turns).closes.map (·.1)).Nodup ∧
    (run path contentType turns).Listing ∧
    ((∀ i < (run path contentType turns).accepted, (run path contentType turns).phase i = .ended) →
      (run path contentType turns).clients = []) := by
  have hstep : ∀ (s : HttpServer P) (t : HttpTurn P), s.Files ∧ s.Listing →
      (s.step path contentType t).Files ∧ (s.step path contentType t).Listing := fun _ t hs =>
    ⟨hs.1.step path contentType t, hs.2.step path contentType hs.1 t⟩
  obtain ⟨hf, hl⟩ := foldl_keeps hstep turns {} ⟨files_start, List.Perm.nil⟩
  generalize hs : turns.foldl (step path contentType) {} = s at hf hl
  have hrun : run path contentType turns = s := hs
  rw [hrun]
  refine ⟨hf.hit, ?_, hl, fun hended => ?_⟩
  · have hclosed : s.closes.map (·.1) = s.table.closed := by
      rw [← hf.closes]
      have hall : ∀ cs : List (Nat × Option Nat), (∀ c ∈ cs, c.2 = some c.1) →
          cs.map (·.1) = cs.filterMap (·.2) := by
        intro cs
        induction cs with
        | nil =>
            intro _
            rfl
        | cons c cs ih =>
            intro hcs
            rw [List.forall_mem_cons] at hcs
            rw [List.map_cons, List.filterMap_cons, hcs.1, ih hcs.2]
      exact hall _ hf.hit
    rw [hclosed]
    exact hf.table.nodup
  · have hnone : s.listed = [] := by
      rw [List.eq_nil_iff_forall_not_mem]
      intro i hi
      obtain ⟨hlt, hlisted⟩ := mem_listed.mp hi
      rw [hended i hlt] at hlisted
      cases hlisted
    have hperm : s.clients.Perm [] := by
      have := hl
      rwa [Listing, hnone] at this
    exact hperm.eq_nil

/-! ## Answers -/

/-- What the endpoint shows after some calls of `publish`: the payload of the last event. -/
def shown (evs : List (Event P)) : Str := (evs.getLast?.map Event.bytes).getD []

/-- `response` is the answer to what the `recv`s returned, with what the endpoint showed after the
first `k` events; the client was accepted no later than that. -/
structure Fresh (path contentType : Str) (published : List (Event P)) (arrived : Nat)
    (recvs : List Received) (k : Nat) (response : Str) : Prop where
  arrived_le : arrived ≤ k
  le : k ≤ published.length
  answer : handleClient ⟨path, contentType, shown (published.take k)⟩ recvs = .sent response

theorem Fresh.publish {path contentType : Str} {published : List (Event P)} {arrived : Nat}
    {recvs : List Received} {k : Nat} {response : Str}
    (h : Fresh path contentType published arrived recvs k response) (ev : Event P) :
    Fresh path contentType (published ++ [ev]) arrived recvs k response := by
  refine ⟨h.arrived_le, ?_, ?_⟩
  · rw [List.length_append]
    exact Nat.le_add_right_of_le h.le
  · rw [List.take_append_of_le_length h.le]
    exact h.answer

/-- What a handler has read, answered and sent, by how far it is. -/
inductive Served (path contentType : Str) (published : List (Event P)) (arrived : Nat) :
    HttpPhase → List Received → Option (Nat × Str) → Str → Prop
  | fresh {x} (hx : x = .unstarted ∨ x = .pushing) :
      Served path contentType published arrived x [] none []
  | reading {text recvs} (hread : ∀ more,
        readUntil hasBlankLine [] (recvs ++ more) = readUntil hasBlankLine text more) :
      Served path contentType published arrived (.receiving text) recvs none []
  | whole {request recvs} (hread : readUntil hasBlankLine [] recvs = .ended request) :
      Served path contentType published arrived (.parsed request) recvs none []
  | answered {response recvs k}
      (hfresh : Fresh path contentType published arrived recvs k response) :
      Served path contentType published arrived (.sending response) recvs (some (k, response)) []
  | dropped {x recvs} (hx : x = .failed ∨ x = .removing ∨ x = .ended) :
      Served path contentType published arrived x recvs none []
  | done {x response recvs k wire} (hx : x = .sent ∨ x = .removing ∨ x = .ended)
      (hfresh : Fresh path contentType published arrived recvs k response)
      (hwire : wire <+: response) :
      Served path contentType published arrived x recvs (some (k, response)) wire

theorem handleClient_append {ep : HttpEndpoint} {recvs : List Received} {response : Str}
    (h : handleClient ep recvs = .sent response) (more : List Received) :
    handleClient ep (recvs ++ more) = .sent response := by
  unfold handleClient at h ⊢
  cases hread : readUntil hasBlankLine [] recvs with
  | ended request =>
      rw [readUntil_append hread]
      rw [hread] at h
      exact h
  | waiting | failed =>
      rw [hread] at h
      cases h

/-- The payload is that of the last event, and each handler is where what it did has led it. -/
structure Answers (path contentType : Str) (s : HttpServer P) : Prop where
  payload : s.payload = shown s.published
  arrived : ∀ i, s.arrived i ≤ s.published.length
  served : ∀ i, Served path contentType s.published (s.arrived i) (s.phase i) (s.recvs i)
    (s.answer i) (s.wire i)

section Answers
variable {path contentType : Str} {s s' : HttpServer P}

theorem Answers.start : ({} : HttpServer P).Answers path contentType where
  payload := rfl
  arrived _ := Nat.le_refl 0
  served _ := .fresh (Or.inl rfl)

theorem Answers.publish (h : s.Answers path contentType) (ev : Event P) :
    (s.publish ev).Answers path contentType := by
  have hlen : s.published.length ≤ (s.published ++ [ev]).length := by
    rw [List.length_append]
    exact Nat.le_add_right _ _
  refine ⟨?_, fun i => (h.arrived i).trans hlen, fun i => ?_⟩
  · show ev.bytes = shown (s.published ++ [ev])
    rw [shown, List.getLast?_concat]
    rfl
  · have hold := h.served i
    show Served path contentType (s.published ++ [ev]) (s.arrived i) (s.phase i) (s.recvs i)
      (s.answer i) (s.wire i)
    generalize s.phase i = x, s.recvs i = recvs, s.answer i = answer, s.wire i = wire at hold ⊢
    cases hold with
    | fresh hx => exact .fresh hx
    | reading hread => exact .reading hread
    | whole hread => exact .whole hread
    | answered hfresh => exact .answered (hfresh.publish ev)
    | dropped hx => exact .dropped hx
    | done hx hfresh hwire => exact .done hx (hfresh.publish ev) hwire

/-- A step of handler `i`: the other handlers are where they were. -/
theorem Answers.handler (h : s.Answers path contentType) (s' : HttpServer P) {i : Nat}
    (hpayload : s'.payload = s.payload) (hpublished : s'.published = s.published)
    (harrived : s'.arrived = s.arrived)
    (hother : ∀ j, j ≠ i → s'.phase j = s.phase j ∧ s'.recvs j = s.recvs j
      ∧ s'.answer j = s.answer j ∧ s'.wire j = s.wire j)
    (hself : Served path contentType s.published (s.arrived i) (s'.phase i) (s'.recvs i)
      (s'.answer i) (s'.wire i)) :
    s'.Answers path contentType := by
  refine ⟨?_, fun j => ?_, fun j => ?_⟩
  · rw [hpayload, hpublished]
    exact h.payload
  · rw [harrived, hpublished]
    exact h.arrived j
  · rw [hpublished, harrived]
    by_cases hji : j = i
    · exact hji ▸ hself
    · obtain ⟨hphase, hrecvs, hanswer, hwire⟩ := hother j hji
      rw [hphase, hrecvs, hanswer, hwire]
      exact h.served j

theorem Answers.accept (h : s.Answers path contentType) (hf : s.Files) (fd : Nat) :
    (s.accept fd).Answers path contentType := by
  refine ⟨h.payload, fun i => ?_, fun i => ?_⟩
  · show Function.update s.arrived s.accepted s.published.length i ≤ s.published.length
    by_cases hi : i = s.accepted
    · rw [hi, Function.update_self]
    · rw [Function.update_of_ne hi]
      exact h.arrived i
  · have hold := h.served i
    show Served path contentType s.published
      (Function.update s.arrived s.accepted s.published.length i)
      (Function.update s.phase s.accepted .pushing i) (s.recvs i) (s.answer i) (s.wire i)
    by_cases hi : i = s.accepted
    · rw [hi, Function.update_self, Function.update_self]
      have hnew := h.served s.accepted
      rw [hf.later _ (Nat.le_refl _)] at hnew
      generalize s.recvs s.accepted = recvs, s.answer s.accepted = answer,
        s.wire s.accepted = wire at hnew ⊢
      cases hnew with
      | fresh hx => exact .fresh (Or.inr rfl)
      | dropped hx => simp at hx
      | done hx => simp at hx
    · rw [Function.update_of_ne hi, Function.update_of_ne hi]
      exact hold

/-- One `recv` takes the reading one piece further. -/
theorem Answers.receive (h : s.Answers path contentType) {i : Nat} {text : Str}
    (hi : s.phase i = .receiving text) (r : Received) :
    (HttpServer.receive s i text r).Answers path contentType := by
  refine h.handler _ rfl rfl rfl (i := i) (fun j hj => ⟨setPhase_ne _ _ hj,
    Function.update_of_ne hj _ _, rfl, rfl⟩) ?_
  have hold := h.served i
  rw [hi] at hold
  show Served path contentType s.published (s.arrived i) ((s.receive i text r).phase i)
    (Function.update s.recvs i (s.recvs i ++ [r]) i) (s.answer i) (s.wire i)
  unfold HttpServer.receive
  rw [setPhase_self, Function.update_self]
  generalize s.recvs i = recvs, s.answer i = answer, s.wire i = wire at hold ⊢
  cases hold with
  | dropped hx => simp at hx
  | done hx => simp at hx
  | fresh hx => simp at hx
  | reading hread =>
      cases r with
      | failed => exact .dropped (Or.inl rfl)
      | closed => exact .whole (hread [.closed])
      | bytes piece =>
          dsimp only
          have hnext : ∀ more, readUntil hasBlankLine [] (recvs ++ [.bytes piece] ++ more)
              = if hasBlankLine (text ++ piece) then .ended (text ++ piece)
                else readUntil hasBlankLine (text ++ piece) more := by
            intro more
            rw [List.append_assoc, hread]
            rfl
          split
          · rename_i hblank
            refine .whole ?_
            have := hnext []
            rwa [List.append_nil, if_pos hblank] at this
          · rename_i hblank
            refine .reading fun more => ?_
            rw [hnext, if_neg hblank]

theorem Answers.build (h : s.Answers path contentType) {i : Nat} {request : Str}
    (hi : s.phase i = .parsed request) :
    (s.build path contentType i request).Answers path contentType := by
  refine h.handler _ rfl rfl rfl (i := i) (fun j hj => ⟨setPhase_ne _ _ hj, rfl,
    Function.update_of_ne hj _ _, rfl⟩) ?_
  have hold := h.served i
  rw [hi] at hold
  show Served path contentType s.published (s.arrived i)
    ((s.build path contentType i request).phase i) (s.recvs i)
    ((s.build path contentType i request).answer i) (s.wire i)
  have hanswer : (s.build path contentType i request).answer i
      = some (s.published.length, HttpEndpoint.response ⟨path, contentType, s.payload⟩
        (nextWord request).1 (nextWord (nextWord request).2).1) := Function.update_self ..
  have hle := h.arrived i
  rw [hanswer, HttpServer.build, setPhase_self]
  generalize s.recvs i = recvs, s.answer i = answer, s.wire i = wire at hold ⊢
  cases hold with
  | dropped hx => simp at hx
  | done hx => simp at hx
  | fresh hx => simp at hx
  | whole hread =>
      refine .answered ⟨hle, Nat.le_refl _, ?_⟩
      rw [List.take_length, ← h.payload, handleClient, hread]

/-- The bytes go to the connection the answer is for. -/
theorem Answers.put (h : s.Answers path contentType) (hf : s.Files) {i : Nat} {response : Str}
    (hi : s.phase i = .sending response) (n : Nat) :
    (s.put i response n).Answers path contentType := by
  have hown : s.table.object (s.fd i) = some i := hf.own i (by rw [hi]; rfl)
  have hwire : (s.put i response n).wire
      = Function.update s.wire i (s.wire i ++ response.take n) := by
    show (match s.table.object (s.fd i) with
      | some o => Function.update s.wire o (s.wire o ++ response.take n)
      | none => s.wire) = _
    rw [hown]
  refine h.handler _ rfl rfl rfl (i := i) (fun j hj => ⟨setPhase_ne _ _ hj, rfl, rfl, ?_⟩) ?_
  · rw [hwire, Function.update_of_ne hj]
  · have hold := h.served i
    rw [hi] at hold
    show Served path contentType s.published (s.arrived i) ((s.put i response n).phase i) (s.recvs i)
      (s.answer i) ((s.put i response n).wire i)
    rw [hwire, Function.update_self, HttpServer.put, setPhase_self]
    generalize s.recvs i = recvs, s.answer i = answer, s.wire i = wire at hold ⊢
    cases hold with
    | dropped hx => simp at hx
    | done hx => simp at hx
    | fresh hx => simp at hx
    | answered hfresh => exact .done (Or.inl rfl) hfresh (List.take_prefix _ _)

/-- A step of a handler that reads nothing and sends nothing. -/
theorem Answers.setPhase (h : s.Answers path contentType) (s' : HttpServer P) {i : Nat}
    {x : HttpPhase} (hpayload : s'.payload = s.payload) (hpublished : s'.published = s.published)
    (harrived : s'.arrived = s.arrived) (hphase : s'.phase = s.phase) (hrecvs : s'.recvs = s.recvs)
    (hanswer : s'.answer = s.answer) (hwire : s'.wire = s.wire)
    (hself : Served path contentType s.published (s.arrived i) x (s.recvs i) (s.answer i)
      (s.wire i)) :
    (s'.setPhase i x).Answers path contentType := by
  refine h.handler _ hpayload hpublished harrived (i := i) (fun j hj => ?_) ?_
  · rw [setPhase_ne _ _ hj, hphase]
    exact ⟨rfl, congrFun hrecvs j, congrFun hanswer j, congrFun hwire j⟩
  · show Served path contentType s.published (s.arrived i) ((s'.setPhase i x).phase i) (s'.recvs i)
      (s'.answer i) (s'.wire i)
    rw [setPhase_self, hrecvs, hanswer, hwire]
    exact hself

theorem Answers.step (h : s.Answers path contentType) (hf : s.Files) (t : HttpTurn P) :
    (s.step path contentType t).Answers path contentType := by
  cases t with
  | publish ev => exact h.publish ev
  | accept fd =>
      rw [HttpServer.step]
      split
      · exact h.accept hf fd
      · exact h
  | handler i r n =>
      have hold := h.served i
      rw [HttpServer.step, handlerStep]
      cases hi : s.phase i with
      | unstarted | ended => exact h
      | receiving text => exact h.receive hi r
      | parsed request => exact h.build hi
      | sending response => exact h.put hf hi n
      | pushing =>
          refine h.setPhase _ rfl rfl rfl rfl rfl rfl rfl ?_
          rw [hi] at hold
          generalize s.recvs i = recvs, s.answer i = answer, s.wire i = wire at hold ⊢
          cases hold with
          | fresh hx => exact .reading fun more => rfl
          | dropped hx => simp at hx
          | done hx => simp at hx
      | failed =>
          refine h.setPhase _ rfl rfl rfl rfl rfl rfl rfl ?_
          rw [hi] at hold
          generalize s.recvs i = recvs, s.answer i = answer, s.wire i = wire at hold ⊢
          cases hold with
          | fresh hx => simp at hx
          | dropped hx => exact .dropped (Or.inr (Or.inl rfl))
          | done hx => simp at hx
      | sent =>
          refine h.setPhase _ rfl rfl rfl rfl rfl rfl rfl ?_
          rw [hi] at hold
          generalize s.recvs i = recvs, s.answer i = answer, s.wire i = wire at hold ⊢
          cases hold with
          | fresh hx => simp at hx
          | dropped hx => simp at hx
          | done hx hfresh hwire => exact .done (Or.inr (Or.inl rfl)) hfresh hwire
      | removing =>
          refine h.setPhase _ rfl rfl rfl rfl rfl rfl rfl ?_
          rw [hi] at hold
          generalize s.recvs i = recvs, s.answer i = answer, s.wire i = wire at hold ⊢
          cases hold with
          | fresh hx => simp at hx
          | dropped hx => exact .dropped (Or.inr (Or.inr rfl))
          | done hx hfresh hwire => exact .done (Or.inr (Or.inr rfl)) hfresh hwire

end Answers

theorem Answers.at_connection {path contentType : Str} {s : HttpServer P}
    (h : s.Answers path contentType) (i : Nat) :
    (s.answer i = none ∧ s.wire i = []) ∨
    ∃ k response, s.answer i = some (k, response)
      ∧ Fresh path contentType s.published (s.arrived i) (s.recvs i) k response
      ∧ s.wire i <+: response := by
  have hserved := h.served i
  generalize s.phase i = x, s.recvs i = recvs, s.answer i = answer, s.wire i = wire at hserved ⊢
  cases hserved with
  | fresh | reading | whole | dropped => exact Or.inl ⟨rfl, rfl⟩
  | answered hfresh => exact Or.inr ⟨_, _, rfl, hfresh, List.nil_prefix⟩
  | done hx hfresh hwire => exact Or.inr ⟨_, _, rfl, hfresh, hwire⟩

theorem run_files_answers (path contentType : Str) (turns : List (HttpTurn P)) :
    (run path contentType turns).Files ∧ (run path contentType turns).Answers path contentType := by
  have hstep : ∀ (s : HttpServer P) (t : HttpTurn P), s.Files ∧ s.Answers path contentType →
      (s.step path contentType t).Files ∧ (s.step path contentType t).Answers path contentType :=
    fun _ t hs => ⟨hs.1.step path contentType t, hs.2.step hs.1 t⟩
  exact foldl_keeps hstep turns {} ⟨files_start, Answers.start⟩

/-- The connections from the `m`-th on were accepted after the first `n` events. -/
def From (n m : Nat) (s : HttpServer P) : Prop :=
  n ≤ s.published.length ∧ m ≤ s.accepted ∧ ∀ j, m ≤ j → j < s.accepted → n ≤ s.arrived j

theorem handlerStep_kept (path contentType : Str) (s : HttpServer P) (i : Nat) (r : Received)
    (n : Nat) :
    (s.handlerStep path contentType i r n).published = s.published ∧
    (s.handlerStep path contentType i r n).accepted = s.accepted ∧
    (s.handlerStep path contentType i r n).arrived = s.arrived := by
  unfold handlerStep
  cases s.phase i <;> exact ⟨rfl, rfl, rfl⟩

theorem From.step (path contentType : Str) {n m : Nat} {s : HttpServer P} (h : s.From n m)
    (t : HttpTurn P) : (s.step path contentType t).From n m := by
  obtain ⟨hpublished, haccepted, harrived⟩ := h
  cases t with
  | publish ev =>
      refine ⟨?_, haccepted, harrived⟩
      show n ≤ (s.published ++ [ev]).length
      rw [List.length_append]
      exact Nat.le_add_right_of_le hpublished
  | accept fd =>
      rw [HttpServer.step]
      split
      · refine ⟨hpublished, Nat.le_succ_of_le haccepted, fun j hmj hj => ?_⟩
        have hj' : j < s.accepted + 1 := hj
        show n ≤ Function.update s.arrived s.accepted s.published.length j
        by_cases hja : j = s.accepted
        · rwa [hja, Function.update_self]
        · rw [Function.update_of_ne hja]
          exact harrived j hmj (by omega)
      · exact ⟨hpublished, haccepted, harrived⟩
  | handler i r k =>
      obtain ⟨hkept, hkept', hkept''⟩ := handlerStep_kept path contentType s i r k
      rw [HttpServer.step, From, hkept, hkept', hkept'']
      exact ⟨hpublished, haccepted, harrived⟩

/-- **Answers are never older than their connection.** What a connection gets is a beginning of the
answer to what its own `recv`s returned, with the payload of the last event before a moment between
its `accept` and now; and a client that connects after an answer was built is shown no older event
than that answer, whatever the interleaving. -/
theorem answers_fresh (path contentType : Str) (before after : List (HttpTurn P)) :
    (∀ i, ((run path contentType (before ++ after)).answer i = none
        ∧ (run path contentType (before ++ after)).wire i = []) ∨
      ∃ k response, (run path contentType (before ++ after)).answer i = some (k, response)
        ∧ Fresh path contentType (run path contentType (before ++ after)).published
          ((run path contentType (before ++ after)).arrived i)
          ((run path contentType (before ++ after)).recvs i) k response
        ∧ (run path contentType (before ++ after)).wire i <+: response) ∧
    ∀ i j k k' response response',
      (run path contentType before).answer i = some (k, response) →
      (run path contentType before).accepted ≤ j →
      (run path contentType (before ++ after)).answer j = some (k', response') → k ≤ k' := by
  obtain ⟨-, hfirst⟩ := run_files_answers path contentType before
  obtain ⟨hfiles, hlast⟩ := run_files_answers path contentType (before ++ after)
  refine ⟨fun i => hlast.at_connection i, fun i j k k' response response' hi hj hanswer => ?_⟩
  have hk : k ≤ (run path contentType before).published.length := by
    rcases hfirst.at_connection i with ⟨hnone, -⟩ | ⟨k₀, response₀, hsome, hfresh, -⟩
    · rw [hi] at hnone
      cases hnone
    · rw [hi] at hsome
      obtain ⟨rfl, rfl⟩ := Prod.mk.inj (Option.some.inj hsome)
      exact hfresh.le
  obtain ⟨-, -, hfrom⟩ : (run path contentType (before ++ after)).From
      (run path contentType before).published.length (run path contentType before).accepted := by
    have hrun : run path contentType (before ++ after)
        = after.foldl (HttpServer.step path contentType) (run path contentType before) :=
      List.foldl_append ..
    rw [hrun]
    exact foldl_keeps (fun s t hs => hs.step path contentType t) after _
      ⟨Nat.le_refl _, Nat.le_refl _, fun j hmj hj => absurd hmj (Nat.not_le_of_lt hj)⟩
  rcases hlast.at_connection j with ⟨hnone, -⟩ | ⟨k₀, response₀, hsome, hfresh, -⟩
  · rw [hanswer] at hnone
    cases hnone
  · rw [hanswer] at hsome
    obtain ⟨rfl, rfl⟩ := Prod.mk.inj (Option.some.inj hsome)
    have haccepted : j < (run path contentType (before ++ after)).accepted := by
      by_contra hlate
      have hserved := hlast.served j
      rw [hfiles.later j (Nat.le_of_not_lt hlate), hanswer] at hserved
      generalize (run path contentType (before ++ after)).recvs j = recvs,
        (run path contentType (before ++ after)).wire j = wire at hserved
      cases hserved with
      | done hx => simp at hx
    exact (hk.trans (hfrom j hj haccepted)).trans hfresh.arrived_le

/-! ## Clients -/

/-- The answer that shows a payload, as a client reads it. -/
def okMessage (contentType payload : Str) : Message :=
  ⟨lit "HTTP/1.1 200 OK", [lit "Content-Type: " ++ contentType,
    lit "Content-Length: " ++ natStr payload.length, lit "Connection: close"], payload⟩

theorem response_get {path contentType payload : Str} :
    HttpEndpoint.response ⟨path, contentType, payload⟩ (lit "GET") path
      = encFields ((okMessage contentType payload).statusLine
        :: (okMessage contentType payload).fields) ++ (payload ++ []) := by
  have hcrlf : lit "\r\n" = crlf := by decide
  have hstatus : lit "HTTP/1.1 200 OK\r\n" = lit "HTTP/1.1 200 OK" ++ crlf := by decide
  have hclose : lit "Connection: close\r\n" = lit "Connection: close" ++ crlf := by decide
  rw [HttpEndpoint.response, if_pos ⟨rfl, rfl⟩, hcrlf, hstatus, hclose]
  simp only [okMessage, encFields, List.flatMap_cons, List.flatMap_nil, List.append_assoc,
    List.append_nil]

theorem readMessage_response {path contentType : Str} (payload : Str)
    (hct : (10 : UInt8) ∉ contentType) :
    readMessage (HttpEndpoint.response ⟨path, contentType, payload⟩ (lit "GET") path)
      = some (okMessage contentType payload) := by
  rw [response_get]
  have hlength : contentLength (okMessage contentType payload).fields = some payload.length := by
    have htype : ¬IsField (lit "Content-Length") (lit "Content-Type: " ++ contentType) := by
      rintro ⟨-, hname⟩
      have htake : (lit "Content-Type: " ++ contentType).takeWhile (· != colon)
          = lit "Content-Type" := rfl
      rw [htake] at hname
      exact absurd hname (by decide)
    have hfield : IsField (lit "Content-Length") (lit "Content-Length: " ++ natStr payload.length) :=
      ⟨List.mem_append_left _ (by decide), rfl⟩
    have hvalue : fieldValue (lit "Content-Length: " ++ natStr payload.length)
        = [32] ++ (natStr payload.length ++ []) := by
      rw [List.append_nil]
      rfl
    have hread : readNumeral ([32] ++ (natStr payload.length ++ [])) = some (false, payload.length) :=
      readNumeral_natStr _ (List.forall_mem_singleton.mpr rfl)
        fun d hd => absurd hd (Option.not_mem_none d)
    have hfind : (okMessage contentType payload).fields.find?
        (fun line => decide (IsField (lit "Content-Length") line))
          = some (lit "Content-Length: " ++ natStr payload.length) := by
      refine (List.find?_cons_of_neg fun hdecide => ?_).trans (List.find?_cons_of_pos ?_)
      · exact htype (of_decide_eq_true hdecide)
      · exact decide_eq_true hfield
    rw [contentLength, hfind, Option.bind_some, hvalue, hread]
    rfl
  have hstatus : IsLine (lit "HTTP/1.1 200 OK") ∧ lit "HTTP/1.1 200 OK" ≠ [] :=
    ⟨IsLine.of_not_mem (by decide), by decide⟩
  refine readMessage_of_length [] hstatus ?_ hlength
  rw [okMessage, List.forall_mem_cons, List.forall_mem_cons, List.forall_mem_singleton]
  refine ⟨⟨IsLine.of_not_mem ?_, List.cons_ne_nil _ _⟩, ⟨IsLine.of_not_mem ?_, List.cons_ne_nil _ _⟩,
    IsLine.of_not_mem (by decide), by decide⟩
  · rw [List.mem_append, not_or]
    exact ⟨by decide, hct⟩
  · rw [List.mem_append, not_or]
    exact ⟨by decide, fun hmem => absurd (isDigit_natStr _ _ hmem) (by decide)⟩

/-- **A client of the HTTP endpoint reads back a payload that was current while it was connected.**
Its request, in whatever pieces it arrives, is a GET of the endpoint's path; the one `send` may take
only a part of the answer. Whenever what the client has received is a complete message at all, it is
the answer that shows the last event published before a moment between its `accept` and now. -/
theorem http_answers_whole {path contentType request : Str} {stop blank : Nat}
    (turns : List (HttpTurn P)) (i : Nat) (hct : (10 : UInt8) ∉ contentType)
    (hwords : TwoWords request (lit "GET") path stop)
    (hblank : IsLeast {j | BlankAt request j} blank) (hstop : stop ≤ blank) {ps : List Str}
    (hps : ps.flatten = request)
    (hrecvs : (run path contentType turns).recvs i <+: ps.map .bytes ++ [.closed]) :
    (∀ m, readMessage ((run path contentType turns).wire i) = some m →
      ∃ k, (run path contentType turns).arrived i ≤ k
        ∧ k ≤ (run path contentType turns).published.length
        ∧ m = okMessage contentType (shown ((run path contentType turns).published.take k))) ∧
    ∀ k response, (run path contentType turns).answer i = some (k, response) →
      (run path contentType turns).wire i = response →
      (readMessage ((run path contentType turns).wire i)).isSome = true := by
  obtain ⟨-, hanswers⟩ := run_files_answers path contentType turns
  generalize hs : run path contentType turns = s at hanswers hrecvs
  have hshape : ∀ k response,
      Fresh path contentType s.published (s.arrived i) (s.recvs i) k response → readMessage response
        = some (okMessage contentType (shown (s.published.take k))) := by
    intro k response hfresh
    have hget := handleClient_of_cut ⟨path, contentType, shown (s.published.take k)⟩ hwords hblank
      hstop hps [.closed]
    have hanswer := hfresh.answer
    obtain ⟨more, hmore⟩ := hrecvs
    have hsame := handleClient_append hanswer more
    rw [hmore, hget] at hsame
    rw [← Handled.sent.inj hsame]
    exact readMessage_response _ hct
  constructor
  · intro m hm
    rcases hanswers.at_connection i with ⟨-, hwire⟩ | ⟨k, response, -, hfresh, ⟨rest, hrest⟩⟩
    · rw [hwire] at hm
      cases hm
    · have hwhole := readMessage_append hm rest
      rw [hrest, hshape k response hfresh] at hwhole
      exact ⟨k, hfresh.arrived_le, hfresh.le, (Option.some.inj hwhole).symm⟩
  · intro k response hanswer hwire
    rcases hanswers.at_connection i with ⟨hnone, -⟩ | ⟨k₀, response₀, hsome, hfresh, -⟩
    · rw [hanswer] at hnone
      cases hnone
    · rw [hanswer] at hsome
      obtain ⟨rfl, rfl⟩ := Prod.mk.inj (Option.some.inj hsome)
      rw [hwire, hshape k response hfresh]
      rfl

/-- A client accepted between two events, whose request arrives in two pieces. -/
theorem http_answers_whole_hi :
    (readMessage ((run (P := 2) (lit "/m") (lit "text/plain")
      [.publish {}, .accept 7, .handler 0 .failed 0, .handler 0 (.bytes (lit "GET /m\r")) 0,
       .publish { payloadSize := 2, payload := #v[104, 105] },
       .handler 0 (.bytes (lit "\n\r\n")) 0, .handler 0 .failed 0, .handler 0 .failed 200]).wire 0)
      = some (okMessage (lit "text/plain") (lit "hi"))) ∧
    ∃ k, 1 ≤ k ∧ k ≤ 2 ∧ okMessage (lit "text/plain") (lit "hi")
      = okMessage (lit "text/plain") (shown (List.take k
          ([{}, { payloadSize := 2, payload := #v[104, 105] }] : List (Event 2)))) := by
  have hwords : TwoWords (lit "GET /m\r\n\r\n") (lit "GET") (lit "/m") 6 := by
    refine ⟨[], [32], lit "\r\n\r\n", by decide, by decide, by decide, by decide, by decide,
      by decide, ?_, by decide⟩
    intro b hb
    cases hb
    decide
  have hblank : IsLeast {i | BlankAt (lit "GET /m\r\n\r\n") i} 6 := by
    have hbefore : ∀ i < 6, ¬BlankAt (lit "GET /m\r\n\r\n") i := by decide +kernel
    refine ⟨?_, fun i hi => Nat.le_of_not_lt fun hlt => hbefore i hlt hi⟩
    change BlankAt _ 6
    decide +kernel
  have hread : readMessage ((run (P := 2) (lit "/m") (lit "text/plain")
      [.publish {}, .accept 7, .handler 0 .failed 0, .handler 0 (.bytes (lit "GET /m\r")) 0,
       .publish { payloadSize := 2, payload := #v[104, 105] },
       .handler 0 (.bytes (lit "\n\r\n")) 0, .handler 0 .failed 0, .handler 0 .failed 200]).wire 0)
      = some (okMessage (lit "text/plain") (lit "hi")) := by decide +kernel
  have hpieces : [lit "GET /m\r", lit "\n\r\n"].flatten = lit "GET /m\r\n\r\n" := by decide
  exact ⟨hread, (http_answers_whole _ 0 (by decide) hwords hblank (by decide) hpieces
    ⟨[.closed], rfl⟩).1 _ hread⟩

end HttpServer

end Mawmaw.Pub
