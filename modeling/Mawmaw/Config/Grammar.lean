import Mawmaw.Config.Parse

/-!
# The grammar of a configuration

* `Significant`, `IsHeader`, `HasEquals` : the kinds of lines; `headerType`, `keyOf`, `valueOf`;
* `outline` : the significant lines before the first header, and the blocks, one for each header;
* `Block.Accepted`, `Block.Yields` : the blocks the grammar admits, and the section one stands for;
* `parseLines_grammar` : the parser's fold over the lines against the outline.
-/

namespace Mawmaw.Conf
open Mawmaw.Lib

/-! ## The grammar -/

/-- Neither empty nor a comment. -/
def Significant (raw : Str) : Prop :=
  trim raw ≠ [] ∧ (trim raw).head? ≠ some 35 ∧ (trim raw).head? ≠ some 59

/-- From `[` to `]`. -/
def IsHeader (raw : Str) : Prop := (trim raw).head? = some 91 ∧ (trim raw).getLast? = some 93

def HasEquals (raw : Str) : Prop := equalsSign ∈ trim raw

instance (raw : Str) : Decidable (Significant raw) := inferInstanceAs (Decidable (_ ∧ _ ∧ _))

instance (raw : Str) : Decidable (IsHeader raw) := inferInstanceAs (Decidable (_ ∧ _))

instance (raw : Str) : Decidable (HasEquals raw) := inferInstanceAs (Decidable (_ ∈ _))

/-- The trimmed text between the brackets. -/
def headerType (raw : Str) : Str := trim (trim raw).tail.dropLast

/-- The trimmed text before the first `=`. -/
def keyOf (raw : Str) : Str := trim ((trim raw).takeWhile (· != equalsSign))

/-- The trimmed text after the first `=`. -/
def valueOf (raw : Str) : Str := trim ((trim raw).dropWhile (· != equalsSign)).tail

/-- A header line with the other significant lines up to the next header. -/
structure Block where
  header : Str
  body : List Str

/-- The significant lines before the first header, and the blocks in order. -/
def outline : List Str → List Str × List Block
  | [] => ([], [])
  | raw :: rest =>
    if ¬Significant raw then outline rest
    else if IsHeader raw then ([], ⟨raw, (outline rest).1⟩ :: (outline rest).2)
    else (raw :: (outline rest).1, (outline rest).2)

/-- The single keys of a block with their values. -/
def Block.singles (b : Block) : List (Str × Str) :=
  (b.body.filter fun raw => !isMultiKey (keyOf raw)).map fun raw => (keyOf raw, valueOf raw)

/-- The values of a key, in line order. -/
def Block.values (b : Block) (key : Str) : List Str :=
  (b.body.filter fun raw => keyOf raw = key).map valueOf

structure Block.Accepted (b : Block) : Prop where
  equals : ∀ raw ∈ b.body, HasEquals raw
  once : (b.singles.map Prod.fst).Nodup

structure Block.Yields (b : Block) (sec : Section) : Prop where
  type : sec.type = headerType b.header
  kv : ∀ key val, sec.kv.lookup key = some val ↔ (key, val) ∈ b.singles
  multi : ∀ key vals, sec.multi.lookup key = some vals
    ↔ isMultiKey key = true ∧ vals = b.values key ∧ vals ≠ []

/-- A significant line before the first header, or a block with a line without `=` or with a single
key given twice. -/
def Rejected (lines : List Str) : Prop :=
  (outline lines).1 ≠ [] ∨ ∃ b ∈ (outline lines).2, ¬b.Accepted

/-- The outline has every significant line, in order. -/
theorem outline_lines (lines : List Str) :
    (outline lines).1 ++ (outline lines).2.flatMap (fun b => b.header :: b.body)
      = lines.filter Significant := by
  induction lines with
  | nil => rfl
  | cons raw rest ih =>
      rw [outline]
      by_cases hsig : Significant raw
      · rw [List.filter_cons_of_pos (by simpa using hsig), ← ih, if_neg (not_not.mpr hsig)]
        split <;> simp
      · rw [List.filter_cons_of_neg (by simpa using hsig), ← ih, if_pos hsig]

/-- Its headers are header lines, and no other line of it is. -/
theorem outline_kinds (lines : List Str) :
    (∀ raw ∈ (outline lines).1, ¬IsHeader raw)
      ∧ ∀ b ∈ (outline lines).2, IsHeader b.header ∧ ∀ raw ∈ b.body, ¬IsHeader raw := by
  induction lines with
  | nil => simp [outline]
  | cons raw rest ih =>
      obtain ⟨hpre, hblocks⟩ := ih
      rw [outline]
      split
      · exact ⟨hpre, hblocks⟩
      · split
        · rename_i hheader
          refine ⟨List.forall_mem_nil _, ?_⟩
          rw [List.forall_mem_cons]
          exact ⟨⟨hheader, hpre⟩, hblocks⟩
        · rename_i hheader
          rw [List.forall_mem_cons]
          exact ⟨⟨hheader, hpre⟩, hblocks⟩

/-! ## Lines -/

theorem readLine_skipped {raw : Str} (h : ¬Significant raw) : readLine raw = .skipped := by
  have hskip : (trim raw).isEmpty || (trim raw).head? == some 35 || (trim raw).head? == some 59 := by
    by_contra hno
    apply h
    unfold Significant
    simpa [not_or, and_assoc] using hno
  unfold readLine
  rw [if_pos hskip]

theorem significant_branch {raw : Str} (h : Significant raw) :
    ¬((trim raw).isEmpty || (trim raw).head? == some 35 || (trim raw).head? == some 59) = true := by
  obtain ⟨hne, hhash, hsemi⟩ := h
  simp [hne, hhash, hsemi]

theorem readLine_header {raw : Str} (h : Significant raw) (hh : IsHeader raw) :
    readLine raw = .header (headerType raw) := by
  have hbrackets : ((trim raw).head? == some 91 && (trim raw).getLast? == some 93) = true := by
    rw [hh.1, hh.2]
    rfl
  have hbetween : (trim raw).tail.dropLast = ((trim raw).drop 1).take ((trim raw).length - 2) := by
    rw [List.dropLast_eq_take, List.length_tail, List.drop_one, Nat.sub_sub]
  unfold readLine
  rw [if_neg (significant_branch h), if_pos hbrackets, headerType, hbetween]

theorem not_header_branch {raw : Str} (h : ¬IsHeader raw) :
    ¬((trim raw).head? == some 91 && (trim raw).getLast? == some 93) = true := by
  intro hb
  apply h
  rw [Bool.and_eq_true, beq_iff_eq, beq_iff_eq] at hb
  exact hb

theorem readLine_entry {raw : Str} (h : Significant raw) (hh : ¬IsHeader raw) (he : HasEquals raw) :
    readLine raw = .entry (keyOf raw) (valueOf raw) := by
  unfold readLine
  rw [if_neg (significant_branch h), if_neg (not_header_branch hh),
    if_pos (List.contains_iff_mem.mpr he), List.drop_one]
  rfl

theorem readLine_noEquals {raw : Str} (h : Significant raw) (hh : ¬IsHeader raw)
    (he : ¬HasEquals raw) : readLine raw = .noEquals (trim raw) := by
  have hnone : ¬(trim raw).contains equalsSign = true := by
    intro hc
    exact he (List.contains_iff_mem.mp hc)
  unfold readLine
  rw [if_neg (significant_branch h), if_neg (not_header_branch hh), if_neg hnone]

/-! ## Blocks -/

/-- The block with one more line. -/
def Block.snoc (b : Block) (raw : Str) : Block := { b with body := b.body ++ [raw] }

theorem Block.singles_snoc (b : Block) (raw : Str) :
    (b.snoc raw).singles = b.singles ++ if isMultiKey (keyOf raw) then [] else [(keyOf raw, valueOf raw)] := by
  unfold singles snoc
  rw [List.filter_append, List.map_append]
  cases h : isMultiKey (keyOf raw) <;> simp [h]

theorem Block.values_snoc (b : Block) (raw key : Str) :
    (b.snoc raw).values key = b.values key ++ if keyOf raw = key then [valueOf raw] else [] := by
  unfold values snoc
  rw [List.filter_append, List.map_append]
  by_cases h : keyOf raw = key <;> simp [h]

/-- More lines do not make a block acceptable. -/
theorem Block.Accepted.of_append {header : Str} {body more : List Str}
    (h : (Block.mk header (body ++ more)).Accepted) : (Block.mk header body).Accepted where
  equals raw hraw := h.equals raw (List.mem_append_left more hraw)
  once := by
    have honce := h.once
    unfold singles at honce ⊢
    rw [List.filter_append, List.map_append, List.map_append] at honce
    exact honce.of_append_left

theorem Block.Yields.isSome_kv {b : Block} {sec : Section} (h : b.Yields sec) (key : Str) :
    (sec.kv.lookup key).isSome = true ↔ key ∈ b.singles.map Prod.fst := by
  rw [Option.isSome_iff_exists, List.mem_map]
  constructor
  · rintro ⟨val, hval⟩
    exact ⟨(key, val), (h.kv key val).mp hval, rfl⟩
  · rintro ⟨⟨k, val⟩, hmem, rfl⟩
    exact ⟨val, (h.kv k val).mpr hmem⟩

theorem Block.Yields.getD_multi {b : Block} {sec : Section} (h : b.Yields sec) {key : Str}
    (hmulti : isMultiKey key = true) : UMap.getD sec.multi key [] = b.values key := by
  unfold UMap.getD
  cases hlook : sec.multi.lookup key with
  | none =>
      by_contra hne
      have hsome := (h.multi key (b.values key)).mpr ⟨hmulti, rfl, fun hnil => hne hnil.symm⟩
      rw [hlook] at hsome
      cases hsome
  | some vals => exact ((h.multi key vals).mp hlook).2.1

/-- A header without lines is accepted, and stands for an empty section. -/
theorem Block.accepted_nil (header : Str) : (Block.mk header []).Accepted where
  equals := List.forall_mem_nil _
  once := List.nodup_nil

theorem Block.yields_nil (header : Str) :
    (Block.mk header []).Yields { type := headerType header } where
  type := rfl
  kv key val := by simp [singles]
  multi key vals := by
    constructor
    · intro h
      simp at h
    · rintro ⟨-, hvals, hne⟩
      exact absurd hvals hne

/-! ## Entries -/

section
variable {b : Block} {sec sec' : Section} {raw : Str}

/-- A section takes an entry only where the block stays acceptable. -/
theorem Section.add_error {lineno : Nat} {e : Str} (hy : b.Yields sec)
    (h : sec.add lineno (keyOf raw) (valueOf raw) = .error e) : ¬(b.snoc raw).Accepted := by
  intro hacc
  unfold Section.add at h
  split at h
  · cases h
  · rename_i hmulti
    split at h
    · rename_i hdup
      have honce := hacc.once
      rw [Block.singles_snoc, if_neg hmulti, List.map_append] at honce
      exact (List.nodup_append.mp honce).2.2 _ ((hy.isSome_kv _).mp hdup) _
        (List.mem_singleton_self _) rfl
    · cases h

theorem Section.add_accepted {lineno : Nat} (ha : b.Accepted) (hy : b.Yields sec)
    (he : HasEquals raw) (h : sec.add lineno (keyOf raw) (valueOf raw) = .ok sec') :
    (b.snoc raw).Accepted where
  equals := by
    unfold Block.snoc
    rw [List.forall_mem_append, List.forall_mem_singleton]
    exact ⟨ha.equals, he⟩
  once := by
    rw [Block.singles_snoc, List.map_append]
    unfold Section.add at h
    split at h
    · rename_i hmulti
      rw [if_pos hmulti, List.map_nil, List.append_nil]
      exact ha.once
    · rename_i hmulti
      split at h
      · cases h
      · rename_i hnew
        rw [if_neg hmulti]
        apply List.Nodup.append ha.once (List.nodup_singleton _)
        apply List.disjoint_singleton.mpr
        intro hmem
        exact hnew ((hy.isSome_kv _).mpr hmem)

/-- A multi key's value goes behind the values of the key. -/
theorem Block.Yields.snoc_multi (hy : b.Yields sec) (hmulti : isMultiKey (keyOf raw) = true) :
    (b.snoc raw).Yields { sec with
      multi := sec.multi.insert (keyOf raw)
        (UMap.getD sec.multi (keyOf raw) [] ++ [valueOf raw]) } where
  type := hy.type
  kv key val := by
    rw [Block.singles_snoc, if_pos hmulti, List.append_nil]
    exact hy.kv key val
  multi key vals := by
    rw [Block.values_snoc, hy.getD_multi hmulti]
    by_cases hkey : keyOf raw = key
    · subst hkey
      rw [AList.lookup_insert, if_pos rfl, Option.some.injEq]
      constructor
      · rintro rfl
        exact ⟨hmulti, rfl, List.append_ne_nil_of_right_ne_nil _ (List.cons_ne_nil _ _)⟩
      · rintro ⟨-, hvals, -⟩
        exact hvals.symm
    · rw [AList.lookup_insert_ne (Ne.symm hkey), if_neg hkey, List.append_nil]
      exact hy.multi key vals

/-- A single key is entered with its value. -/
theorem Block.Yields.snoc_single (hy : b.Yields sec) (hmulti : ¬isMultiKey (keyOf raw) = true)
    (hnew : ¬(sec.kv.lookup (keyOf raw)).isSome = true) :
    (b.snoc raw).Yields { sec with kv := sec.kv.insert (keyOf raw) (valueOf raw) } where
  type := hy.type
  kv key val := by
    rw [Block.singles_snoc, if_neg hmulti, List.mem_append, List.mem_singleton]
    by_cases hkey : keyOf raw = key
    · subst hkey
      rw [AList.lookup_insert, Option.some.injEq, Prod.mk.injEq]
      have hold : (keyOf raw, val) ∉ b.singles := by
        intro hmem
        exact hnew ((hy.isSome_kv _).mpr (List.mem_map_of_mem hmem))
      constructor
      · intro hval
        exact .inr ⟨rfl, hval.symm⟩
      · rintro (hmem | ⟨-, hval⟩)
        · exact absurd hmem hold
        · exact hval.symm
    · rw [AList.lookup_insert_ne (Ne.symm hkey), hy.kv key val, Prod.mk.injEq]
      constructor
      · exact .inl
      · rintro (hmem | ⟨hk, -⟩)
        · exact hmem
        · exact absurd hk.symm hkey
  multi key vals := by
    have hvalues : isMultiKey key = true → (b.snoc raw).values key = b.values key := by
      intro hm
      have hkey : keyOf raw ≠ key := by
        rintro rfl
        exact hmulti hm
      rw [Block.values_snoc, if_neg hkey, List.append_nil]
    rw [hy.multi key vals]
    constructor
    · rintro ⟨hm, hvals, hne⟩
      exact ⟨hm, hvals.trans (hvalues hm).symm, hne⟩
    · rintro ⟨hm, hvals, hne⟩
      exact ⟨hm, hvals.trans (hvalues hm), hne⟩

theorem Section.add_yields {lineno : Nat} (hy : b.Yields sec)
    (h : sec.add lineno (keyOf raw) (valueOf raw) = .ok sec') : (b.snoc raw).Yields sec' := by
  unfold Section.add at h
  split at h
  · rename_i hmulti
    obtain rfl := Except.ok.inj h
    exact hy.snoc_multi hmulti
  · rename_i hmulti
    split at h
    · cases h
    · rename_i hnew
      obtain rfl := Except.ok.inj h
      exact hy.snoc_single hmulti hnew

end

/-! ## The fold -/

/-- What the parser makes of the rest of the lines, the blocks `blocks` being open or to come:
an error where one of them is not accepted, else their sections after the closed ones. -/
def Outcome (closed : List Section) (blocks : List Block) : Except Str Parsing → Prop
  | .error _ => ∃ b ∈ blocks, ¬b.Accepted
  | .ok p => (∀ b ∈ blocks, b.Accepted)
      ∧ ∃ secs, p.config.sections = closed ++ secs ∧ List.Forall₂ Block.Yields blocks secs

theorem Outcome.cons {closed : List Section} {sec : Section} {b : Block} {blocks : List Block}
    {r : Except Str Parsing} (ha : b.Accepted) (hy : b.Yields sec)
    (h : Outcome (closed ++ [sec]) blocks r) : Outcome closed (b :: blocks) r := by
  match r with
  | .error _ =>
      obtain ⟨c, hc, hnot⟩ := h
      exact ⟨c, List.mem_cons_of_mem b hc, hnot⟩
  | .ok p =>
      obtain ⟨hall, secs, hsecs, hyields⟩ := h
      refine ⟨List.forall_mem_cons.mpr ⟨ha, hall⟩, sec :: secs, ?_, .cons hy hyields⟩
      rw [hsecs, List.append_assoc]
      rfl

/-- Inside a section that stands for the lines `b` read so far. -/
theorem parseLines_open (lines : List Str) : ∀ (lineno : Nat) (closed : List Section)
    (sec : Section) (b : Block), b.Accepted → b.Yields sec →
    Outcome closed (⟨b.header, b.body ++ (outline lines).1⟩ :: (outline lines).2)
      (parseLines lineno { closed, current := some sec } lines) := by
  induction lines with
  | nil =>
      intro lineno closed sec b ha hy
      rw [outline, List.append_nil]
      exact ⟨List.forall_mem_singleton.mpr ha, [sec], rfl, .cons hy .nil⟩
  | cons raw rest ih =>
      intro lineno closed sec b ha hy
      rw [outline, parseLines, parseLine]
      by_cases hsig : Significant raw
      · rw [if_neg (not_not.mpr hsig)]
        by_cases hheader : IsHeader raw
        · rw [if_pos hheader, readLine_header hsig hheader, List.append_nil]
          exact (ih _ _ _ ⟨raw, []⟩ (Block.accepted_nil raw) (Block.yields_nil raw)).cons ha hy
        · rw [if_neg hheader]
          by_cases heq : HasEquals raw
          · rw [readLine_entry hsig hheader heq]
            have hsnoc : b.body ++ raw :: (outline rest).1
                = (b.snoc raw).body ++ (outline rest).1 := by
              rw [Block.snoc, List.append_assoc]
              rfl
            change Outcome closed (⟨b.header, b.body ++ raw :: (outline rest).1⟩ :: _) _
            rw [hsnoc]
            cases hadd : sec.add (lineno + 1) (keyOf raw) (valueOf raw) with
            | error e =>
                simp only [hadd]
                refine ⟨_, List.mem_cons_self, fun hacc => ?_⟩
                exact Section.add_error hy hadd hacc.of_append
            | ok sec' =>
                simp only [hadd]
                exact ih (lineno + 1) closed sec' (b.snoc raw)
                  (Section.add_accepted ha hy heq hadd) (Section.add_yields hy hadd)
          · rw [readLine_noEquals hsig hheader heq]
            refine ⟨_, List.mem_cons_self, fun hacc => heq ?_⟩
            exact hacc.equals raw (List.mem_append_right _ List.mem_cons_self)
      · rw [if_pos hsig, readLine_skipped hsig]
        exact ih (lineno + 1) closed sec b ha hy

/-- Before the first header. -/
theorem parseLines_start (lines : List Str) : ∀ lineno : Nat,
    ((outline lines).1 = [] → Outcome [] (outline lines).2 (parseLines lineno {} lines))
      ∧ ((outline lines).1 ≠ [] → ∃ e, parseLines lineno {} lines = .error e) := by
  induction lines with
  | nil =>
      intro lineno
      refine ⟨fun _ => ⟨List.forall_mem_nil _, [], rfl, .nil⟩, fun hne => absurd rfl hne⟩
  | cons raw rest ih =>
      intro lineno
      rw [outline, parseLines, parseLine]
      by_cases hsig : Significant raw
      · rw [if_neg (not_not.mpr hsig)]
        by_cases hheader : IsHeader raw
        · rw [if_pos hheader, readLine_header hsig hheader]
          refine ⟨fun _ => ?_, fun hne => absurd rfl hne⟩
          exact parseLines_open rest _ [] _ ⟨raw, []⟩ (Block.accepted_nil raw)
            (Block.yields_nil raw)
        · rw [if_neg hheader]
          refine ⟨fun hnil => absurd hnil (List.cons_ne_nil _ _), fun _ => ?_⟩
          by_cases heq : HasEquals raw
          · rw [readLine_entry hsig hheader heq]
            exact ⟨_, rfl⟩
          · rw [readLine_noEquals hsig hheader heq]
            exact ⟨_, rfl⟩
      · rw [if_pos hsig, readLine_skipped hsig]
        exact ih (lineno + 1)

/-! ## The parser -/

/-- What `parse` makes of the lines of a file it could open. -/
def parseAll (lines : List Str) : Except Str Config := (parseLines 0 {} lines).map Parsing.config

theorem parseAll_outcome (lines : List Str) :
    match parseAll lines with
    | .error _ => Rejected lines
    | .ok cfg => ¬Rejected lines ∧ List.Forall₂ Block.Yields (outline lines).2 cfg.sections := by
  obtain ⟨hblocks, hpre⟩ := parseLines_start lines 0
  unfold parseAll
  by_cases hnil : (outline lines).1 = []
  · have houtcome := hblocks hnil
    cases hp : parseLines 0 {} lines with
    | error e =>
        rw [hp] at houtcome
        exact .inr houtcome
    | ok p =>
        rw [hp] at houtcome
        obtain ⟨hall, secs, hsecs, hyields⟩ := houtcome
        refine ⟨?_, ?_⟩
        · rintro (hne | ⟨b, hb, hnot⟩)
          · exact hne hnil
          · exact hnot (hall b hb)
        · rw [hsecs]
          exact hyields
  · obtain ⟨e, he⟩ := hpre hnil
    rw [he]
    exact .inl hnil

/-- The parser throws on just the lines the grammar rejects, and else gives one section for each
block, with the keys and values of its lines and no others. -/
theorem parse_grammar (path : Str) (lines : List Str) :
    ((∃ e, parseAll lines = .error e) ↔ Rejected lines)
      ∧ (∀ cfg, parseAll lines = .ok cfg →
        List.Forall₂ Block.Yields (outline lines).2 cfg.sections)
      ∧ ∀ text, parse path (some text) = parseAll (fileLines text) := by
  have houtcome := parseAll_outcome lines
  refine ⟨⟨?_, fun hrej => ?_⟩, fun cfg hcfg => ?_, fun text => rfl⟩
  · rintro ⟨e, he⟩
    rw [he] at houtcome
    exact houtcome
  · cases hp : parseAll lines with
    | error e => exact ⟨e, rfl⟩
    | ok cfg =>
        rw [hp] at houtcome
        exact absurd hrej houtcome.1
  · rw [hcfg] at houtcome
    exact houtcome.2

end Mawmaw.Conf
