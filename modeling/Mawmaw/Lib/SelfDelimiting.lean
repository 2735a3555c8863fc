import Mawmaw.Lib.LittleEndian

/-!
# Self-delimiting encodings

* `Delimits D R enc` : of two encodings of values in `D`, with anything behind them, that are the
  same bytes the values are related by `R`, and so what is behind is the same;
* `Delimits.of_fixed`, `Delimits.prod`, `Delimits.counted` : fields of a fixed size, one encoding
  after another, a list after its length;
* `sized` : a list after its length in four bytes;
* `Delimits.of_prefix` : no encoding is a proper prefix of another's.
-/

namespace Mawmaw.Lib
variable {α β γ : Type}

def Delimits (D : α → Prop) (R : α → α → Prop) (enc : α → List β) : Prop :=
  ∀ a b x y, D a → D b → enc a ++ x = enc b ++ y → R a b ∧ x = y

namespace Delimits
variable {D : α → Prop} {R : α → α → Prop} {enc : α → List β} {E : γ → Prop} {S : γ → γ → Prop}
  {enc' : γ → List β}

theorem of_fixed {n : Nat} (hlen : ∀ a, D a → (enc a).length = n)
    (hinj : ∀ a b, D a → D b → enc a = enc b → R a b) : Delimits D R enc := by
  intro a b x y ha hb h
  obtain ⟨henc, hrest⟩ := List.append_inj h ((hlen a ha).trans (hlen b hb).symm)
  exact ⟨hinj a b ha hb henc, hrest⟩

theorem prod (h : Delimits D R enc) (h' : Delimits E S enc') :
    Delimits (fun p : α × γ => D p.1 ∧ E p.2) (fun p q => R p.1 q.1 ∧ S p.2 q.2)
      (fun p => enc p.1 ++ enc' p.2) := by
  intro p q x y hp hq heq
  rw [List.append_assoc, List.append_assoc] at heq
  obtain ⟨hfirst, hrest⟩ := h p.1 q.1 _ _ hp.1 hq.1 heq
  obtain ⟨hsecond, hxy⟩ := h' p.2 q.2 x y hp.2 hq.2 hrest
  exact ⟨⟨hfirst, hsecond⟩, hxy⟩

/-- Lists of one length. -/
theorem flatMap (h : Delimits D R enc) : ∀ (as bs : List α) (x y : List β),
    (∀ a ∈ as, D a) → (∀ b ∈ bs, D b) → as.length = bs.length →
    as.flatMap enc ++ x = bs.flatMap enc ++ y → List.Forall₂ R as bs ∧ x = y
  | [], [], x, y, _, _, _, heq => ⟨.nil, heq⟩
  | a :: as, b :: bs, x, y, ha, hb, hlen, heq => by
    rw [List.flatMap_cons, List.flatMap_cons, List.append_assoc, List.append_assoc] at heq
    rw [List.forall_mem_cons] at ha hb
    obtain ⟨hab, hrest⟩ := h a b _ _ ha.1 hb.1 heq
    obtain ⟨htail, hxy⟩ := h.flatMap as bs x y ha.2 hb.2 (Nat.succ.inj hlen) hrest
    exact ⟨.cons hab htail, hxy⟩

/-- A list after its length. -/
theorem counted {bound : Nat} {count : Nat → List β} (hcount : Delimits (· < bound) Eq count)
    (h : Delimits D R enc) :
    Delimits (fun as : List α => as.length < bound ∧ ∀ a ∈ as, D a) (List.Forall₂ R)
      (fun as => count as.length ++ as.flatMap enc) := by
  intro as bs x y has hbs heq
  rw [List.append_assoc, List.append_assoc] at heq
  obtain ⟨hlen, hrest⟩ := hcount _ _ _ _ has.1 hbs.1 heq
  exact h.flatMap as bs x y has.2 hbs.2 hlen hrest

theorem of_prefix (h : Delimits D R enc) {a b : α} (ha : D a) (hb : D b)
    (hpre : enc a <+: enc b) : R a b := by
  obtain ⟨rest, hrest⟩ := hpre
  rw [← List.append_nil (enc b)] at hrest
  exact (h a b rest [] ha hb hrest).1

end Delimits

/-- Encodings that are never empty take at least a byte each. -/
theorem length_le_length_flatMap (enc : α → List β) (as : List α)
    (h : ∀ a ∈ as, 0 < (enc a).length) : as.length ≤ (as.flatMap enc).length := by
  induction as with
  | nil => exact le_refl _
  | cons a as ih =>
      rw [List.forall_mem_cons] at h
      have htail := ih h.2
      have hhead := h.1
      rw [List.flatMap_cons, List.length_append, List.length_cons]
      omega

theorem length_le_of_mem_flatMap (enc : α → List β) {as : List α} {a : α} (h : a ∈ as) :
    (enc a).length ≤ (as.flatMap enc).length := by
  rw [List.flatMap_def]
  exact (List.sublist_flatten_of_mem (List.mem_map_of_mem h)).length_le

/-! ## Words -/

theorem delimits_le64 : Delimits (fun _ => True) Eq le64 :=
  .of_fixed (fun v _ => length_le64 v) fun v w _ _ h => by
    rw [← ofLE64_le64 v, h, ofLE64_le64]

theorem delimits_le32 : Delimits (fun _ => True) Eq le32 :=
  .of_fixed (fun v _ => length_le32 v) fun v w _ _ h => by
    rw [← ofLE32_le32 v, h, ofLE32_le32]

theorem delimits_le16 : Delimits (fun _ => True) Eq le16 :=
  .of_fixed (fun v _ => length_le16 v) fun v w _ _ h => by
    rw [← ofLE16_le16 v, h, ofLE16_le16]

/-- Four bytes count up to `2 ^ 32`. -/
theorem delimits_count32 : Delimits (· < 2 ^ 32) Eq fun n => le32 (UInt32.ofNat n) := by
  intro n m x y hn hm h
  obtain ⟨hnm, hxy⟩ := delimits_le32 _ _ x y trivial trivial h
  have hnat := congrArg UInt32.toNat hnm
  rw [UInt32.toNat_ofNat', UInt32.toNat_ofNat', Nat.mod_eq_of_lt hn, Nat.mod_eq_of_lt hm] at hnat
  exact ⟨hnat, hxy⟩

/-- A list after its length in four bytes. -/
def sized (enc : α → List UInt8) (as : List α) : List UInt8 :=
  le32 (UInt32.ofNat as.length) ++ as.flatMap enc

theorem Delimits.sized {D : α → Prop} {R : α → α → Prop} {enc : α → List UInt8}
    (h : Delimits D R enc) : Delimits (fun as : List α => as.length < 2 ^ 32 ∧ ∀ a ∈ as, D a)
      (List.Forall₂ R) (sized enc) :=
  delimits_count32.counted h

end Mawmaw.Lib
