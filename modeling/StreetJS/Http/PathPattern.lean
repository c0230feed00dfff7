/-
Route templates of `router/src/router.ts`. `compilePath` rewrites the text of a template three times into the
source of a regular expression and collects the names of its parameters on the way; what the expression takes
is what the template says, group by group.
-/
import Mathlib.Data.List.Forall2
import StreetJS.Lib.Scan
import StreetJS.Lib.SequencePattern

namespace StreetJS.Http

open StreetJS.Lib List

/-- A text of a path. The path of a request is the `pathname` of its URL and ASCII, so that its characters are
its code units. -/
abbrev PathText := List Char

/-! ## The three rewrites -/

/-- `[.*+?^${}()|[\]\\]` -/
def specials : List Char := ['.', '*', '+', '?', '^', '$', '{', '}', '(', ')', '|', '[', ']', '\\']

/-- `'\\$&'` -/
def escapeChar (c : Char) : PathText := if c ∈ specials then ['\\', c] else [c]

variable (path : PathText)

def escapeSpecials : PathText := path.flatMap escapeChar

def isNameStart (c : Char) : Bool := c.isAlpha || c == '_'

def isNamePart (c : Char) : Bool := c.isAlphanum || c == '_'

/-- `[a-zA-Z_][a-zA-Z0-9_]*` at the head of a text. -/
def nameAt : PathText → Option PathText
  | [] => none
  | c :: s => if isNameStart c then some (c :: s.takeWhile isNamePart) else none

/-- `:([a-zA-Z_][a-zA-Z0-9_]*)` -/
def paramAt : PathText → Option (PathText × Nat)
  | ':' :: s => (nameAt s).map fun name => (name, name.length)
  | _ => none

/-- `\\\*` -/
def wildcardAt : PathText → Option (Unit × Nat)
  | '\\' :: '*' :: _ => some ((), 1)
  | _ => none

/-- A segment's group, `([^/]+)`. -/
def segmentGroup : PathText := ['(', '[', '^', '/', ']', '+', ')']

/-- The rest's group, `(.*)`. -/
def restGroup : PathText := ['(', '.', '*', ')']

/-- The source of the regular expression between `^` and `$`, and the names. -/
structure CompiledPath where
  source : PathText
  paramNames : List PathText

def compilePath : CompiledPath where
  source := replaceAll wildcardAt (fun _ => restGroup) (replaceAll paramAt (fun _ => segmentGroup) (escapeSpecials path))
  paramNames := found paramAt (escapeSpecials path)

/-! ## Regular expressions -/

/-- What `.` does not take. -/
def isLineTerminator (c : Char) : Bool := c == '\n' || c == '\r' || c == '\u2028' || c == '\u2029'

/-- The expressions of single characters, escaped special characters and the two groups; `none` is an
expression of another kind. -/
def parseSource : PathText → Option (SequencePattern Char)
  | [] => some []
  | '(' :: '[' :: '^' :: '/' :: ']' :: '+' :: ')' :: s => (parseSource s).map (.run 1 (· != '/') :: ·)
  | '(' :: '.' :: '*' :: ')' :: s => (parseSource s).map (.run 0 (fun c => !isLineTerminator c) :: ·)
  | '\\' :: c :: s => if c ∈ specials then (parseSource s).map (.one (· == c) :: ·) else none
  | c :: s => if c ∈ specials then none else (parseSource s).map (.one (· == c) :: ·)

/-- The groups of `pattern.exec(path)`. -/
def CompiledPath.exec (p : CompiledPath) (path : PathText) : Option (List PathText) :=
  (parseSource p.source).bind fun items => items.exec path

/-! ## What a template says -/

inductive Token where
  | lit (c : Char)
  | param (name : PathText)
  | wildcard

def tokenAt : PathText → Option (Token × Nat)
  | ':' :: s => (nameAt s).map fun name => (.param name, name.length)
  | '*' :: _ => some (.wildcard, 0)
  | _ => none

def tokens : List Token := (scan tokenAt 0 path).map (Sum.elim .lit id)

/-- A literal is itself, a parameter the text of a segment or a part of it, a wildcard any text. -/
def Token.item : Token → PatternItem Char
  | .lit c => .one (· == c)
  | .param _ => .run 1 (· != '/')
  | .wildcard => .run 0 fun _ => true

/-- What a token becomes in the expression: a wildcard stays on its line. -/
def Token.compiled : Token → PatternItem Char
  | .lit c => .one (· == c)
  | .param _ => .run 1 (· != '/')
  | .wildcard => .run 0 fun c => !isLineTerminator c

/-- A group of the template: a named one of a parameter, one without a name of a wildcard. -/
def Token.group : Token → Option (Option PathText)
  | .lit _ => none
  | .param name => some (some name)
  | .wildcard => some none

def groups : List (Option PathText) := (tokens path).filterMap Token.group

/-- The template divides the path, with the texts of its groups. -/
def TemplateMatches (template path : PathText) (texts : List PathText) : Prop :=
  SequencePattern.Matches ((tokens template).map Token.item) path texts

/-! ## Names -/

variable {c : Char}

theorem namePart_of_start (h : isNameStart c = true) : isNamePart c = true := by
  unfold isNamePart Char.isAlphanum
  rcases Bool.or_eq_true_iff.1 h with h | h <;> simp [h]

variable {s : PathText}

theorem nameAt_eq {name : PathText} (h : nameAt s = some name) : name = s.takeWhile isNamePart := by
  cases s with
  | nil => cases h
  | cons c s =>
    simp only [nameAt, Option.ite_none_right_eq_some] at h
    obtain ⟨hc, h⟩ := h
    cases h
    rw [takeWhile_cons_of_pos (namePart_of_start hc)]

theorem not_namePart_of_special (h : c ∈ specials) : isNamePart c = false := by
  have hall : (specials.all fun c => !isNamePart c) = true := by decide
  simpa using all_eq_true.1 hall c h

theorem escapeChar_of_namePart (h : isNamePart c = true) : escapeChar c = [c] := by
  unfold escapeChar
  rw [if_neg]
  intro hc
  rw [not_namePart_of_special hc] at h
  cases h

theorem escapeSpecials_cons (c : Char) (s : PathText) :
    escapeSpecials (c :: s) = if c ∈ specials then '\\' :: c :: escapeSpecials s else c :: escapeSpecials s := by
  simp only [escapeSpecials, flatMap_cons, escapeChar]
  split <;> rfl

theorem takeWhile_escapeSpecials (s : PathText) : (escapeSpecials s).takeWhile isNamePart = s.takeWhile isNamePart := by
  induction s with
  | nil => rfl
  | cons c s ih =>
    rw [escapeSpecials_cons]
    by_cases hc : c ∈ specials
    · have hpart := not_namePart_of_special hc
      rw [if_pos hc, takeWhile_cons_of_neg (by decide), takeWhile_cons_of_neg (by simp [hpart])]
    · rw [if_neg hc, takeWhile_cons, takeWhile_cons, ih]

theorem drop_escapeSpecials {n : Nat} (h : n ≤ (s.takeWhile isNamePart).length) : (escapeSpecials s).drop n = escapeSpecials (s.drop n) := by
  induction s generalizing n with
  | nil => simp [escapeSpecials]
  | cons c s ih =>
    cases n with
    | zero => rfl
    | succ n =>
      by_cases hc : isNamePart c = true
      · rw [takeWhile_cons_of_pos hc, length_cons] at h
        have hcons : escapeSpecials (c :: s) = c :: escapeSpecials s := by
          simp only [escapeSpecials, flatMap_cons, escapeChar_of_namePart hc, singleton_append]
        rw [hcons, drop_succ_cons, drop_succ_cons]
        apply ih
        omega
      · rw [takeWhile_cons_of_neg hc] at h
        simp at h

theorem nameAt_escapeSpecials (s : PathText) : nameAt (escapeSpecials s) = nameAt s := by
  cases s with
  | nil => rfl
  | cons c s =>
    rw [escapeSpecials_cons]
    by_cases hc : c ∈ specials
    · have hpart := not_namePart_of_special hc
      have hstart : isNameStart c = false := by
        cases h : isNameStart c with
        | false => rfl
        | true =>
          rw [namePart_of_start h] at hpart
          cases hpart
      have hback : isNameStart '\\' = false := by decide
      simp only [if_pos hc, nameAt, hstart, hback, Bool.false_eq_true, if_false]
    · simp only [if_neg hc, nameAt, takeWhile_escapeSpecials]

/-! ## Tokens -/

theorem tokens_param {name : PathText} (h : nameAt s = some name) : tokens (':' :: s) = .param name :: tokens (s.drop name.length) := by
  have hat : tokenAt (':' :: s) = some (.param name, name.length) := by
    simp only [tokenAt, h, Option.map_some]
  unfold tokens
  rw [scan_cons_some hat]
  rfl

theorem tokens_wildcard (s : PathText) : tokens ('*' :: s) = .wildcard :: tokens s := by
  unfold tokens
  rfl

theorem tokens_lit (hw : c ≠ '*') (hp : c = ':' → nameAt s = none) : tokens (c :: s) = .lit c :: tokens s := by
  have hat : tokenAt (c :: s) = none := by
    unfold tokenAt
    split
    · rename_i heq
      cases heq
      rw [hp rfl]
      rfl
    · rename_i heq
      cases heq
      exact absurd rfl hw
    · rfl
  unfold tokens
  rw [scan_cons_none hat]
  rfl

theorem template_induction {P : PathText → Prop} (nil : P []) (param : ∀ name s, nameAt s = some name → P (s.drop name.length) → P (':' :: s))
    (wildcard : ∀ s, P s → P ('*' :: s))
    (lit : ∀ c s, c ≠ '*' → (c = ':' → nameAt s = none) → P s → P (c :: s)) (s : PathText) : P s := by
  induction hn : s.length using Nat.strongRecOn generalizing s with
  | _ n ih =>
    subst hn
    cases s with
    | nil => exact nil
    | cons c s =>
      have htail : P s := ih s.length (by simp) s rfl
      by_cases hw : c = '*'
      · subst hw
        exact wildcard s htail
      · by_cases hp : c = ':' → nameAt s = none
        · exact lit c s hw hp htail
        · obtain ⟨rfl, hname⟩ := Classical.not_imp.1 hp
          obtain ⟨name, hname⟩ := Option.ne_none_iff_exists'.1 hname
          refine param name s hname (ih _ ?_ _ rfl)
          simp only [length_drop, length_cons]
          omega

/-! ## The compiled expression -/

/-- A token after the second rewrite. -/
def Token.rewritten : Token → PathText
  | .lit c => escapeChar c
  | .param _ => segmentGroup
  | .wildcard => ['\\', '*']

/-- A token after the third. -/
def Token.source : Token → PathText
  | .lit c => escapeChar c
  | .param _ => segmentGroup
  | .wildcard => restGroup

def Token.name? : Token → Option PathText
  | .param name => some name
  | _ => none

theorem paramAt_ne (h : c ≠ ':') : paramAt (c :: s) = none := by
  unfold paramAt
  split
  · rename_i heq
    cases heq
    exact absurd rfl h
  · rfl

theorem replaceParams_eq : replaceAll paramAt (fun _ => segmentGroup) (escapeSpecials path) = (tokens path).flatMap Token.rewritten ∧
      found paramAt (escapeSpecials path) = (tokens path).filterMap Token.name? := by
  induction path using template_induction with
  | nil => exact ⟨rfl, rfl⟩
  | param name s hname ih =>
    have hat : paramAt (':' :: escapeSpecials s) = some (name, name.length) := by
      simp only [paramAt, nameAt_escapeSpecials, hname, Option.map_some]
    have hlen : name.length ≤ (s.takeWhile isNamePart).length := Nat.le_of_eq (congrArg List.length (nameAt_eq hname))
    rw [escapeSpecials_cons, if_neg (by decide), tokens_param hname, replaceAll_cons_some hat, found_cons_some hat,
      drop_escapeSpecials hlen, ih.1, ih.2]
    exact ⟨rfl, rfl⟩
  | wildcard s ih =>
    have hback : paramAt ('\\' :: '*' :: escapeSpecials s) = none := rfl
    have hstar : paramAt ('*' :: escapeSpecials s) = none := rfl
    rw [escapeSpecials_cons, if_pos (by decide), tokens_wildcard, replaceAll_cons_none hback, found_cons_none hback,
      replaceAll_cons_none hstar, found_cons_none hstar, ih.1, ih.2]
    exact ⟨rfl, rfl⟩
  | lit c s hw hp ih =>
    rw [tokens_lit hw hp, flatMap_cons, filterMap_cons_none rfl, escapeSpecials_cons]
    by_cases hc : c ∈ specials
    · have hback : paramAt ('\\' :: c :: escapeSpecials s) = none := rfl
      have hspecial : paramAt (c :: escapeSpecials s) = none := by
        apply paramAt_ne
        rintro rfl
        revert hc
        decide
      rw [if_pos hc, replaceAll_cons_none hback, found_cons_none hback, replaceAll_cons_none hspecial, found_cons_none hspecial, ih.1, ih.2]
      simp [Token.rewritten, escapeChar, hc]
    · have hnone : paramAt (c :: escapeSpecials s) = none := by
        unfold paramAt
        split
        · rename_i heq
          cases heq
          rw [nameAt_escapeSpecials, hp rfl]
          rfl
        · rfl
      rw [if_neg hc, replaceAll_cons_none hnone, found_cons_none hnone, ih.1, ih.2]
      simp [Token.rewritten, escapeChar, hc]

theorem star_not_lit : Token.lit '*' ∉ tokens path := by
  induction path using template_induction with
  | nil => exact not_mem_nil
  | param name s hname ih =>
    rw [tokens_param hname]
    simpa using ih
  | wildcard s ih =>
    rw [tokens_wildcard]
    simpa using ih
  | lit c s hw hp ih =>
    rw [tokens_lit hw hp]
    simpa [Ne.symm hw] using ih

theorem wildcardAt_ne (h : c ≠ '\\') : wildcardAt (c :: s) = none := by
  unfold wildcardAt
  split
  · rename_i heq
    cases heq
    exact absurd rfl h
  · rfl

theorem wildcardAt_back (h : s.head? ≠ some '*') : wildcardAt ('\\' :: s) = none := by
  unfold wildcardAt
  split
  · rename_i heq
    cases heq
    exact absurd rfl h
  · rfl

theorem rewritten_head (ts : List Token) (h : Token.lit '*' ∉ ts) : (ts.flatMap Token.rewritten).head? ≠ some '*' := by
  cases ts with
  | nil => simp
  | cons t ts =>
    rw [mem_cons, not_or] at h
    cases t with
    | lit c =>
      have hc : c ≠ '*' := fun hc => h.1 (by rw [hc])
      simp only [flatMap_cons, Token.rewritten, escapeChar]
      split <;> simp [hc]
    | param name => simp [Token.rewritten, segmentGroup]
    | wildcard => simp [Token.rewritten]

theorem replaceWildcards_eq {ts : List Token} (h : Token.lit '*' ∉ ts) :
    replaceAll wildcardAt (fun _ => restGroup) (ts.flatMap Token.rewritten) = ts.flatMap Token.source := by
  induction ts with
  | nil => rfl
  | cons t ts ih =>
    rw [mem_cons, not_or] at h
    have ih := ih h.2
    rw [flatMap_cons, flatMap_cons]
    cases t with
    | lit c =>
      have hc : c ≠ '*' := fun hc => h.1 (by rw [hc])
      simp only [Token.rewritten, Token.source, escapeChar]
      split
      · -- an escaped character that is no star, the backslash among them
        rw [cons_append, singleton_append, replaceAll_cons_none (wildcardAt_back (by simpa using hc))]
        by_cases hb : c = '\\'
        · subst hb
          rw [replaceAll_cons_none (wildcardAt_back (rewritten_head ts h.2)), ih]
          rfl
        · rw [replaceAll_cons_none (wildcardAt_ne hb), ih]
          rfl
      · rename_i hspecial
        have hb : c ≠ '\\' := by
          rintro rfl
          exact hspecial (by decide)
        rw [singleton_append, replaceAll_cons_none (wildcardAt_ne hb), ih]
        rfl
    | param name =>
      simp only [Token.rewritten, Token.source, segmentGroup, cons_append, nil_append]
      rw [replaceAll_cons_none rfl, replaceAll_cons_none rfl, replaceAll_cons_none rfl, replaceAll_cons_none rfl,
        replaceAll_cons_none rfl, replaceAll_cons_none rfl, replaceAll_cons_none rfl, ih]
    | wildcard =>
      have hat : wildcardAt ('\\' :: '*' :: ts.flatMap Token.rewritten) = some ((), 1) := rfl
      simp only [Token.rewritten, Token.source, cons_append, nil_append]
      rw [replaceAll_cons_some hat, drop_succ_cons, drop_zero, ih]

theorem parseSource_lit (h : c ∉ specials) : parseSource (c :: s) = (parseSource s).map (.one (· == c) :: ·) := by
  have hopen : c ≠ '(' := by
    rintro rfl
    exact h (by decide)
  have hback : c ≠ '\\' := by
    rintro rfl
    exact h (by decide)
  rw [parseSource, if_neg h] <;> grind

theorem parseSource_tokens (ts : List Token) : parseSource (ts.flatMap Token.source) = some (ts.map Token.compiled) := by
  induction ts with
  | nil => rfl
  | cons t ts ih =>
    rw [flatMap_cons, map_cons]
    cases t with
    | lit c =>
      simp only [Token.source, Token.compiled, escapeChar]
      split
      · rename_i hc
        simp [parseSource, hc, ih]
      · rename_i hc
        rw [singleton_append, parseSource_lit hc, ih, Option.map_some]
    | param name => simp [Token.source, Token.compiled, segmentGroup, parseSource, ih]
    | wildcard => simp [Token.source, Token.compiled, restGroup, parseSource, ih]

theorem compilePath_paramNames : (compilePath path).paramNames = (tokens path).filterMap Token.name? :=
  (replaceParams_eq path).2

/-- For every template the three rewrites give an expression that is valid and has the groups of the template,
one after the other. -/
theorem compilePath_exec (template path : PathText) :
    (compilePath template).exec path = SequencePattern.exec ((tokens template).map Token.compiled) path := by
  unfold CompiledPath.exec compilePath
  rw [(replaceParams_eq template).1, replaceWildcards_eq (star_not_lit template), parseSource_tokens]
  rfl

theorem templateMatches_of_exec {template path : PathText} {texts : List PathText}
    (h : (compilePath template).exec path = some texts) : TemplateMatches template path texts := by
  rw [compilePath_exec] at h
  apply (SequencePattern.matches_of_exec _ h).wider
  rw [List.forall₂_map_left_iff, List.forall₂_map_right_iff]
  apply List.forall₂_same.2
  rintro (c | name | _) -
  · exact .one fun a h => h
  · exact .run fun a h => h
  · exact .run fun a _ => rfl

theorem paramNames_eq_groups (template : PathText) : (compilePath template).paramNames = (groups template).filterMap id := by
  rw [compilePath_paramNames, groups, filterMap_filterMap]
  apply filterMap_congr
  rintro (c | name | _) - <;> rfl

end StreetJS.Http
