import Mawmaw.Config.Config

/-!
# Reading a configuration file

* `readLine` : what a line of the file is;
* `Parsing` : the sections so far, the last of them open; `parseLine`, `parse` with its errors;
* `routeLines` : the entries of the `[routes]` sections, in textual order; `declaredTargets`;
* `parse_routeTargets` : which of them the parsed sections keep.
-/

namespace Mawmaw.Conf
open Mawmaw.Lib

def newline : UInt8 := 10

def equalsSign : UInt8 := 61

/-- Keys allowed to appear more than once per section. -/
def isMultiKey (key : Str) : Bool :=
  key == lit "window" || key == lit "endpoint" || key == lit "emits"

/-! ## Lines -/

inductive Line
  /-- Empty, or a comment that starts with `#` or `;`. -/
  | skipped
  /-- `[type]`. -/
  | header (type : Str)
  | entry (key val : Str)
  | noEquals (text : Str)
  deriving DecidableEq

def readLine (raw : Str) : Line :=
  let line := trim raw
  if line.isEmpty || line.head? == some 35 || line.head? == some 59 then .skipped
  else if line.head? == some 91 && line.getLast? == some 93 then
    .header (trim ((line.drop 1).take (line.length - 2)))
  else if line.contains equalsSign then
    .entry (trim (line.takeWhile (· != equalsSign)))
      (trim ((line.dropWhile (· != equalsSign)).drop 1))
  else .noEquals line

/-- The lines of a file. Where it ends with a newline this has one more, empty, line than `getline`
reads; such a line is skipped. -/
def fileLines (text : Str) : List Str := text.splitOn newline

/-! ## Parsing -/

/-- The sections before the current one, and the current one. -/
structure Parsing where
  closed : List Section := []
  current : Option Section := none

def Parsing.config (p : Parsing) : Config := { sections := p.closed ++ p.current.toList }

def Section.add (sec : Section) (lineno : Nat) (key val : Str) : Except Str Section :=
  if isMultiKey key then
    .ok { sec with multi := sec.multi.insert key (UMap.getD sec.multi key [] ++ [val]) }
  else if (sec.kv.lookup key).isSome then
    .error (lit "Config line " ++ natStr lineno ++ lit ": duplicate key '" ++ key ++ lit "'")
  else .ok { sec with kv := sec.kv.insert key val }

def parseLine (lineno : Nat) (p : Parsing) (raw : Str) : Except Str Parsing :=
  match readLine raw, p.current with
  | .skipped, _ => .ok p
  | .header type, _ => .ok { closed := p.config.sections, current := some { type } }
  | .entry _ _, none | .noEquals _, none =>
    .error (lit "Config line " ++ natStr lineno ++ lit ": key=value before any section header")
  | .entry key val, some sec =>
    (sec.add lineno key val).map fun sec => { p with current := some sec }
  | .noEquals text, some _ =>
    .error (lit "Config line " ++ natStr lineno ++ lit ": expected key = value, got: " ++ text)

/-- The lines after line number `lineno`. -/
def parseLines : Nat → Parsing → List Str → Except Str Parsing
  | _, p, [] => .ok p
  | lineno, p, raw :: rest =>
    (parseLine (lineno + 1) p raw).bind fun p => parseLines (lineno + 1) p rest

/-- `file` is the text of the file at `path`, if it can be opened. -/
def parse (path : Str) (file : Option Str) : Except Str Config :=
  match file with
  | none => .error (lit "Cannot open config: " ++ path)
  | some text => (parseLines 0 {} (fileLines text)).map Parsing.config

/-! ## The route lines of a text -/

def isRoutes (type : Str) : Bool := type == lit "routes"

/-- The keys and values given in `[routes]` sections, in textual order; `inRoutes` tells whether the
first line is in one. -/
def routeLines (inRoutes : Bool) : List Str → List (Str × Str)
  | [] => []
  | raw :: rest =>
    match readLine raw with
    | .skipped => routeLines inRoutes rest
    | .header type => routeLines (isRoutes type) rest
    | .entry key val => (if inRoutes then [(key, val)] else []) ++ routeLines inRoutes rest
    | .noEquals _ => routeLines inRoutes rest

/-- The targets that the lines `s = targets` among `lines` list. -/
def targetsOf (lines : List (Str × Str)) (s : Str) : List Str :=
  (lines.filter fun kv => kv.1 = s).flatMap fun kv => splitComma kv.2

/-- The targets a text declares for stream `s`. -/
def declaredTargets (text s : Str) : List Str := targetsOf (routeLines false (fileLines text)) s

theorem targetsOf_append (as bs : List (Str × Str)) (s : Str) :
    targetsOf (as ++ bs) s = targetsOf as s ++ targetsOf bs s := by
  simp [targetsOf]

/-! ## What the parsed sections keep of them -/

/-- The targets of `s` in the single keys of a section, if it is a `[routes]` section. -/
def Section.routeTargets (sec : Section) (s : Str) : List Str :=
  if isRoutes sec.type then (sec.kv.lookup s).elim [] splitComma else []

def Config.routeTargets (cfg : Config) (s : Str) : List Str :=
  cfg.sections.flatMap fun sec => sec.routeTargets s

def Parsing.inRoutes (p : Parsing) : Bool := p.current.elim false fun sec => isRoutes sec.type

/-- An accepted entry adds its targets, unless its key is a multi key. -/
theorem Section.routeTargets_add {sec sec' : Section} {lineno : Nat} {key val : Str}
    (h : sec.add lineno key val = .ok sec') (s : Str) :
    sec'.type = sec.type ∧ sec'.routeTargets s = sec.routeTargets s
      ++ if isMultiKey s then []
        else targetsOf (if isRoutes sec.type then [(key, val)] else []) s := by
  unfold add at h
  by_cases hmulti : isMultiKey key = true
  · rw [if_pos hmulti] at h
    obtain rfl := Except.ok.inj h
    refine ⟨rfl, ?_⟩
    by_cases hs : key = s
    · rw [← hs, if_pos hmulti, List.append_nil]
      rfl
    · have hnone : targetsOf (if isRoutes sec.type then [(key, val)] else []) s = [] := by
        unfold targetsOf
        split <;> simp [hs]
      rw [hnone, ite_self, List.append_nil]
      rfl
  · rw [if_neg hmulti] at h
    split at h
    · cases h
    · rename_i hdup
      obtain rfl := Except.ok.inj h
      refine ⟨rfl, ?_⟩
      have hnew : sec.kv.lookup key = none := by simpa using hdup
      unfold routeTargets
      cases hr : isRoutes sec.type with
      | false => simp [targetsOf]
      | true =>
          by_cases hs : key = s
          · subst hs
            simp [hnew, targetsOf, hmulti]
          · simp [AList.lookup_insert_ne (Ne.symm hs), targetsOf, hs]

theorem Config.routeTargets_append (as bs : List Section) (s : Str) :
    Config.routeTargets ⟨as ++ bs⟩ s = Config.routeTargets ⟨as⟩ s ++ Config.routeTargets ⟨bs⟩ s :=
  List.flatMap_append

theorem parseLine_targets {lineno : Nat} {p p' : Parsing} {raw : Str}
    (h : parseLine lineno p raw = .ok p') (rest : List Str) (s : Str) :
    p'.config.routeTargets s
        ++ (if isMultiKey s then [] else targetsOf (routeLines p'.inRoutes rest) s)
      = p.config.routeTargets s
        ++ if isMultiKey s then [] else targetsOf (routeLines p.inRoutes (raw :: rest)) s := by
  unfold parseLine at h
  rw [routeLines]
  split at h
  · rename_i hline
    obtain rfl := Except.ok.inj h
    simp only [hline]
  · rename_i type hline
    obtain rfl := Except.ok.inj h
    have hfresh : (Parsing.mk p.config.sections (some { type })).config.routeTargets s
        = p.config.routeTargets s := by
      rw [Parsing.config, Config.routeTargets_append]
      simp [Config.routeTargets, Section.routeTargets]
    simp only [hline, hfresh]
    rfl
  · cases h
  · cases h
  · rename_i key val sec hline hcur
    cases hadd : sec.add lineno key val with
    | error e =>
        rw [hadd] at h
        cases h
    | ok sec' =>
        rw [hadd] at h
        obtain rfl := Except.ok.inj h
        obtain ⟨htype, htargets⟩ := Section.routeTargets_add hadd s
        have hin : p.inRoutes = isRoutes sec.type := by rw [Parsing.inRoutes, hcur]; rfl
        have hin' : (Parsing.mk p.closed (some sec')).inRoutes = isRoutes sec.type := by
          rw [← htype]
          rfl
        simp only [hline, hin, hin', Parsing.config, hcur, Config.routeTargets_append,
          targetsOf_append]
        simp only [Config.routeTargets, Option.toList, List.flatMap_cons, List.flatMap_nil,
          List.append_nil, htargets, List.append_assoc]
        split <;> simp
  · cases h

/-- The parsed `[routes]` sections keep the targets of every line whose key is not a multi key. -/
theorem parseLines_targets (s : Str) : ∀ {lines : List Str} {lineno : Nat} {p p' : Parsing},
    parseLines lineno p lines = .ok p' → p'.config.routeTargets s = p.config.routeTargets s
      ++ if isMultiKey s then [] else targetsOf (routeLines p.inRoutes lines) s := by
  intro lines
  induction lines with
  | nil =>
      intro lineno p p' h
      obtain rfl := Except.ok.inj h
      simp [routeLines, targetsOf]
  | cons raw rest ih =>
      intro lineno p p' h
      rw [parseLines] at h
      cases hline : parseLine (lineno + 1) p raw with
      | error e =>
          rw [hline] at h
          cases h
      | ok p₁ =>
          rw [hline] at h
          rw [ih h, parseLine_targets hline rest s]

theorem parse_routeTargets {path text : Str} {cfg : Config} (h : parse path (some text) = .ok cfg)
    (s : Str) :
    cfg.routeTargets s = if isMultiKey s then [] else declaredTargets text s := by
  change (parseLines 0 {} (fileLines text)).map Parsing.config = _ at h
  cases hp : parseLines 0 {} (fileLines text) with
  | error e =>
      rw [hp] at h
      cases h
  | ok p =>
      rw [hp] at h
      obtain rfl := Except.ok.inj h
      exact parseLines_targets s hp

end Mawmaw.Conf
