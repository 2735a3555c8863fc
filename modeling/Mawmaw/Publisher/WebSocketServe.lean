import Mawmaw.Publisher.WebSocketFrames

/-!
# A client's handler on the bytes of its client

The loop of `handshake_and_serve` after the handshake, for a client that sends the bytes `input`
and then, if `eof`, closes. The handler is a detached thread: an exception that leaves it ends the
process.

* `serve` : the handler after some rounds;
* `sizesAsked` : the sizes of the vectors a round makes;
* `afterFrames` : the bytes after the first frames of the input;
* `handle_goes_on_iff`, `afterFrames_length` : a round that goes on has a frame of at least two
  bytes behind it, so that `serve_ends`;
* `never_thrown_iff` : no exception leaves the handler exactly if every size asked for is accepted.
-/

namespace Mawmaw.Pub
open Mawmaw.Lib

inductive ServeState
  | serving (input : List UInt8)
  | left
  | waiting
  | thrown
  deriving DecidableEq, Repr

section
variable (accepts : Nat → Bool) (eof : Bool)

/-- One round: `running_` is read, and a frame is handled. -/
def serveStep (running : Bool) : ServeState → ServeState
  | .serving input =>
    if running then
      match handleIncomingFrame accepts eof input with
      | .returned true rest => .serving rest
      | .returned false _ => .left
      | .waiting => .waiting
      | .thrown => .thrown
    else .left
  | s => s

/-- The handler after `k` rounds; `running j` is what the `j`-th one reads. -/
def serve (running : Nat → Bool) (input : List UInt8) : Nat → ServeState
  | 0 => .serving input
  | k + 1 => serveStep accepts eof (running k) (serve running input k)

/-- The sizes of the vectors a round makes: the payload's and, for a ping or a close, the answer's. -/
def sizesAsked (input : List UInt8) : List Nat :=
  match readHeader eof input with
  | .ok h rest =>
    h.len.toNat :: match readExact eof rest h.len.toNat with
      | .ok payload _ => (replyFrame h.opcode (h.unmask payload)).toList.map List.length
      | _ => []
  | _ => []

/-- The bytes after the first frame, if it is complete and not a close. -/
def afterFrame (input : List UInt8) : Option (List UInt8) :=
  match readHeader eof input with
  | .ok h rest =>
    match readExact eof rest h.len.toNat with
    | .ok _ rest => if h.opcode = 0x8 then none else some rest
    | _ => none
  | _ => none

/-- The bytes after the first `k` frames. -/
def afterFrames (input : List UInt8) : Nat → Option (List UInt8)
  | 0 => some input
  | k + 1 => (afterFrames input k).bind (afterFrame eof)

end

/-! ## One round -/

section
variable {accepts : Nat → Bool} {eof : Bool} {input rest : List UInt8}

theorem handle_thrown_iff : handleIncomingFrame accepts eof input = .thrown ↔
    ∃ n ∈ sizesAsked eof input, accepts n = false := by
  unfold handleIncomingFrame sizesAsked
  cases readHeader eof input with
  | failed => simp
  | waiting => simp
  | ok h rest =>
      dsimp only
      cases hlen : accepts h.len.toNat with
      | false => simp [hlen]
      | true =>
          cases readExact eof rest h.len.toNat with
          | failed => simp [hlen]
          | waiting => simp [hlen]
          | ok payload rest =>
              simp only [if_true, answer]
              cases replyFrame h.opcode (h.unmask payload) with
              | none => simp [hlen]
              | some frame => cases hframe : accepts frame.length <;> simp [hlen, hframe]

theorem answer_goes_on_iff {opcode : UInt8} {payload left : List UInt8} :
    answer accepts opcode payload left = .returned true rest ↔
      (if opcode = 0x8 then none else some left) = some rest ∧
        ∀ frame ∈ replyFrame opcode payload, accepts frame.length = true := by
  unfold answer
  by_cases hclose : opcode = 0x8
  · subst hclose
    have hreply : replyFrame 0x8 payload = some (wsFrame 0x8 payload) := rfl
    rw [hreply]
    cases haccepts : accepts (wsFrame 0x8 payload).length <;> simp [haccepts]
  · have hne : (opcode != 0x8) = true := bne_iff_ne.2 hclose
    rw [if_neg hclose]
    cases replyFrame opcode payload with
    | none => simp
    | some frame => cases haccepts : accepts frame.length <;> simp [haccepts, hne]

/-- A round that goes on has the first frame behind it. -/
theorem handle_goes_on_iff : handleIncomingFrame accepts eof input = .returned true rest ↔
    afterFrame eof input = some rest ∧ ∀ n ∈ sizesAsked eof input, accepts n = true := by
  unfold handleIncomingFrame sizesAsked afterFrame
  cases readHeader eof input with
  | failed => simp
  | waiting => simp
  | ok h rest =>
      dsimp only
      cases hlen : accepts h.len.toNat with
      | false => simp [hlen]
      | true =>
          cases readExact eof rest h.len.toNat with
          | failed => simp
          | waiting => simp
          | ok payload rest =>
              simp only [if_true, answer_goes_on_iff]
              simp [hlen]

theorem readExact_eof (n : Nat) : readExact true input n ≠ .waiting := by
  unfold readExact
  split <;> simp

theorem ReadResult.ok_ne_waiting {α : Type} {a : α} : ReadResult.ok a rest ≠ .waiting :=
  fun h => by cases h

theorem ReadResult.andThen_ne_waiting {α β : Type} {r : ReadResult α}
    {next : α → List UInt8 → ReadResult β} (hr : r ≠ .waiting)
    (hnext : ∀ a rest, next a rest ≠ .waiting) : r.andThen next ≠ .waiting := by
  cases r with
  | ok a rest => exact hnext a rest
  | failed => exact fun h => by cases h
  | waiting => exact absurd rfl hr

theorem readLength_eof (len : UInt8) : readLength true len input ≠ .waiting := by
  unfold readLength
  split
  · exact ReadResult.andThen_ne_waiting (readExact_eof 2) fun _ _ => ReadResult.ok_ne_waiting
  · split
    · exact ReadResult.andThen_ne_waiting (readExact_eof 8) fun _ _ => ReadResult.ok_ne_waiting
    · exact ReadResult.ok_ne_waiting

theorem readKey_eof (masked : Bool) : readKey true masked input ≠ .waiting := by
  unfold readKey
  split
  · exact ReadResult.andThen_ne_waiting (readExact_eof 4) fun _ _ => ReadResult.ok_ne_waiting
  · exact ReadResult.ok_ne_waiting

theorem readHeader_eof : readHeader true input ≠ .waiting := by
  refine ReadResult.andThen_ne_waiting (readExact_eof 2) fun hdr rest => ?_
  refine ReadResult.andThen_ne_waiting (readLength_eof _) fun len rest => ?_
  exact ReadResult.andThen_ne_waiting (readKey_eof _) fun _ _ => ReadResult.ok_ne_waiting

/-- No read waits once the end of file is there. -/
theorem handle_eof : handleIncomingFrame accepts true input ≠ .waiting := by
  unfold handleIncomingFrame answer
  cases hheader : readHeader true input with
  | failed => simp
  | waiting => exact absurd hheader readHeader_eof
  | ok h rest =>
      dsimp only
      split
      · cases hpayload : readExact true rest h.len.toNat with
        | failed => simp
        | waiting => exact absurd hpayload (readExact_eof _)
        | ok payload rest =>
            dsimp only
            cases replyFrame h.opcode (h.unmask payload) with
            | none => simp
            | some frame => cases haccepts : accepts frame.length <;> simp [haccepts]
      · simp

/-! ## How much a round reads -/

theorem readExact_length {eof : Bool} {n : Nat} {got : List UInt8}
    (h : readExact eof input n = .ok got rest) : rest.length + n = input.length := by
  unfold readExact at h
  split at h
  · next hn =>
      obtain ⟨-, rfl⟩ := ReadResult.ok.inj h
      rw [List.length_drop]
      omega
  · split at h <;> cases h

theorem ReadResult.andThen_ok {α β : Type} {r : ReadResult α}
    {next : α → List UInt8 → ReadResult β} {b : β} (h : r.andThen next = .ok b rest) :
    ∃ a left, r = .ok a left ∧ next a left = .ok b rest := by
  cases r with
  | ok a left => exact ⟨a, left, rfl, h⟩
  | failed => cases h
  | waiting => cases h

theorem readLength_length {len : UInt8} {n : UInt64}
    (h : readLength eof len input = .ok n rest) : rest.length ≤ input.length := by
  unfold readLength at h
  split at h
  · obtain ⟨ext, left, hread, hok⟩ := ReadResult.andThen_ok h
    obtain ⟨-, rfl⟩ := ReadResult.ok.inj hok
    exact Nat.le.intro (readExact_length hread)
  · split at h
    · obtain ⟨ext, left, hread, hok⟩ := ReadResult.andThen_ok h
      obtain ⟨-, rfl⟩ := ReadResult.ok.inj hok
      exact Nat.le.intro (readExact_length hread)
    · obtain ⟨-, rfl⟩ := ReadResult.ok.inj h
      exact Nat.le_refl _

theorem readKey_length {masked : Bool} {key : Option (List UInt8)}
    (h : readKey eof masked input = .ok key rest) : rest.length ≤ input.length := by
  unfold readKey at h
  split at h
  · obtain ⟨ext, left, hread, hok⟩ := ReadResult.andThen_ok h
    obtain ⟨-, rfl⟩ := ReadResult.ok.inj hok
    exact Nat.le.intro (readExact_length hread)
  · obtain ⟨-, rfl⟩ := ReadResult.ok.inj h
    exact Nat.le_refl _

theorem readHeader_length {h : FrameHeader} (hok : readHeader eof input = .ok h rest) :
    rest.length + 2 ≤ input.length := by
  obtain ⟨hdr, afterHdr, hhdr, hok⟩ := ReadResult.andThen_ok hok
  obtain ⟨len, afterLen, hlen, hok⟩ := ReadResult.andThen_ok hok
  obtain ⟨key, afterKey, hkey, hok⟩ := ReadResult.andThen_ok hok
  obtain ⟨-, rfl⟩ := ReadResult.ok.inj hok
  have := readExact_length hhdr
  have := readLength_length hlen
  have := readKey_length hkey
  omega

theorem afterFrame_length (h : afterFrame eof input = some rest) :
    rest.length + 2 ≤ input.length := by
  unfold afterFrame at h
  cases hheader : readHeader eof input with
  | failed => simp [hheader] at h
  | waiting => simp [hheader] at h
  | ok hdr left =>
      simp only [hheader] at h
      cases hpayload : readExact eof left hdr.len.toNat with
      | failed => simp [hpayload] at h
      | waiting => simp [hpayload] at h
      | ok payload left =>
          simp only [hpayload] at h
          split at h
          · cases h
          · obtain rfl := Option.some.inj h
            have := readHeader_length hheader
            have := readExact_length hpayload
            omega

theorem afterFrames_length (k : Nat) (h : afterFrames eof input k = some rest) :
    rest.length + 2 * k ≤ input.length := by
  induction k generalizing rest with
  | zero =>
      obtain rfl := Option.some.inj h
      exact Nat.le_refl _
  | succ k ih =>
      obtain ⟨left, hleft, hframe⟩ := Option.bind_eq_some_iff.1 h
      have := ih hleft
      have := afterFrame_length hframe
      omega

end

/-! ## The loop -/

section
variable {accepts : Nat → Bool} {eof : Bool} {running : Nat → Bool} {input rest : List UInt8}

theorem serveStep_serving_iff {go : Bool} {s : ServeState} :
    serveStep accepts eof go s = .serving rest ↔
      ∃ left, s = .serving left ∧ go = true ∧
        handleIncomingFrame accepts eof left = .returned true rest := by
  cases s with
  | serving left =>
      cases go with
      | false => simp [serveStep]
      | true =>
          cases hround : handleIncomingFrame accepts eof left with
          | returned ok after => cases ok <;> simp [serveStep, hround]
          | waiting => simp [serveStep, hround]
          | thrown => simp [serveStep, hround]
  | left => simp [serveStep]
  | waiting => simp [serveStep]
  | thrown => simp [serveStep]

theorem serveStep_thrown_iff {go : Bool} {s : ServeState} :
    serveStep accepts eof go s = .thrown ↔ s = .thrown ∨
      ∃ left, s = .serving left ∧ go = true ∧ handleIncomingFrame accepts eof left = .thrown := by
  cases s with
  | serving left =>
      cases go with
      | false => simp [serveStep]
      | true =>
          cases hround : handleIncomingFrame accepts eof left with
          | returned ok after => cases ok <;> simp [serveStep, hround]
          | waiting => simp [serveStep, hround]
          | thrown => simp [serveStep, hround]
  | left => simp [serveStep]
  | waiting => simp [serveStep]
  | thrown => simp [serveStep]

/-- The handler is at the frame boundary the bytes alone say it is at, unless it has stopped. -/
theorem serve_serving (k : Nat) (h : serve accepts eof running input k = .serving rest) :
    afterFrames eof input k = some rest ∧ ∀ j < k, running j = true := by
  induction k generalizing rest with
  | zero =>
      obtain rfl := ServeState.serving.inj h
      exact ⟨rfl, fun j hj => absurd hj (Nat.not_lt_zero j)⟩
  | succ k ih =>
      obtain ⟨left, hleft, hgo, hround⟩ := serveStep_serving_iff.1 h
      obtain ⟨hframes, hrunning⟩ := ih hleft
      refine ⟨?_, fun j hj => ?_⟩
      · show (afterFrames eof input k).bind (afterFrame eof) = some rest
        rw [hframes]
        exact (handle_goes_on_iff.1 hround).1
      · rcases Nat.lt_succ_iff_lt_or_eq.1 hj with hj | rfl
        · exact hrunning j hj
        · exact hgo

/-- The handler gets to every boundary if nothing is thrown on the way. -/
theorem serve_of_afterFrames (hno : ∀ k, serve accepts eof running input k ≠ .thrown) (k : Nat)
    (hframes : afterFrames eof input k = some rest) (hrunning : ∀ j < k, running j = true) :
    serve accepts eof running input k = .serving rest := by
  induction k generalizing rest with
  | zero =>
      obtain rfl := Option.some.inj hframes
      rfl
  | succ k ih =>
      obtain ⟨left, hleft, hframe⟩ := Option.bind_eq_some_iff.1 hframes
      have hserving := ih hleft fun j hj => hrunning j (Nat.lt_succ_of_lt hj)
      have hgo := hrunning k (Nat.lt_succ_self k)
      refine serveStep_serving_iff.2 ⟨left, hserving, hgo, handle_goes_on_iff.2 ⟨hframe, ?_⟩⟩
      intro n hn
      by_contra hbad
      refine hno (k + 1) (serveStep_thrown_iff.2 (Or.inr ⟨left, hserving, hgo, ?_⟩))
      exact handle_thrown_iff.2 ⟨n, hn, Bool.eq_false_iff.2 hbad⟩

/-- Half as many rounds as bytes, and one, are enough for the handler to leave or to wait. -/
theorem serve_ends (k : Nat) (hk : input.length < 2 * k) :
    serve accepts eof running input k ≠ .serving rest := by
  intro h
  have := afterFrames_length k (serve_serving k h).1
  omega

theorem serve_eof (k : Nat) : serve accepts true running input k ≠ .waiting := by
  induction k with
  | zero => exact ServeState.noConfusion
  | succ k ih =>
      intro h
      cases hk : serve accepts true running input k with
      | waiting => exact ih hk
      | left => simp [serve, serveStep, hk] at h
      | thrown => simp [serve, serveStep, hk] at h
      | serving left =>
          cases hgo : running k with
          | false => simp [serve, serveStep, hk, hgo] at h
          | true =>
              cases hround : handleIncomingFrame accepts true left with
              | waiting => exact handle_eof hround
              | thrown => simp [serve, serveStep, hk, hgo, hround] at h
              | returned ok after => cases ok <;> simp [serve, serveStep, hk, hgo, hround] at h

theorem not_thrown_of_accepted (k : Nat)
    (haccepts : ∀ k left, afterFrames eof input k = some left → (∀ j ≤ k, running j = true) →
      ∀ n ∈ sizesAsked eof left, accepts n = true) :
    serve accepts eof running input k ≠ .thrown := by
  induction k with
  | zero => exact ServeState.noConfusion
  | succ k ih =>
      intro h
      rcases serveStep_thrown_iff.1 h with h | ⟨left, hleft, hgo, hround⟩
      · exact ih h
      · obtain ⟨hframes, hrunning⟩ := serve_serving k hleft
        obtain ⟨n, hn, hbad⟩ := handle_thrown_iff.1 hround
        have hall : ∀ j ≤ k, running j = true := fun j hj =>
          (Nat.lt_or_eq_of_le hj).elim (hrunning j) fun heq => heq ▸ hgo
        rw [haccepts k left hframes hall n hn] at hbad
        cases hbad

/-- No exception leaves the handler, and with the end of file every round ends, exactly if every
size asked for at a boundary it gets to is one a vector can have. -/
theorem never_thrown_iff (accepts : Nat → Bool) (eof : Bool) (running : Nat → Bool)
    (input : List UInt8) :
    (∀ k, serve accepts eof running input k ≠ .thrown ∧
        (eof = true → serve accepts eof running input k ≠ .waiting)) ↔
      ∀ k left, afterFrames eof input k = some left → (∀ j ≤ k, running j = true) →
        ∀ n ∈ sizesAsked eof left, accepts n = true := by
  constructor
  · intro hno k left hframes hrunning n hn
    have hserving := serve_of_afterFrames (fun k => (hno k).1) k hframes
      fun j hj => hrunning j (Nat.le_of_lt hj)
    by_contra hbad
    refine (hno (k + 1)).1 (serveStep_thrown_iff.2 (Or.inr ⟨left, hserving, ?_, ?_⟩))
    · exact hrunning k (Nat.le_refl k)
    · exact handle_thrown_iff.2 ⟨n, hn, Bool.eq_false_iff.2 hbad⟩
  · intro haccepts k
    refine ⟨not_thrown_of_accepted k haccepts, ?_⟩
    rintro rfl
    exact serve_eof k

/-- Ten bytes that announce a payload of `2^64 - 1` bytes. -/
theorem thrown_on_announced_length :
    ¬ ∀ (accepts : Nat → Bool) (eof : Bool) (running : Nat → Bool) (input : List UInt8),
      (∀ n, 2 ^ 63 - 1 < n → accepts n = false) →
        ∀ k, serve accepts eof running input k ≠ .thrown := by
  intro h
  refine h (fun n => decide (n ≤ 2 ^ 63 - 1)) false (fun _ => true)
    [0x82, 127, 255, 255, 255, 255, 255, 255, 255, 255] (fun n hn => ?_) 1 ?_
  · exact decide_eq_false (Nat.not_le.2 hn)
  · decide +kernel

end

end Mawmaw.Pub
