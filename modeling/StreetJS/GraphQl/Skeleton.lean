/-
The skeleton of a document: parentheses are single tokens, and the fields are read around them. Where the texts in
the parentheses close no parenthesis and keep their braces in pairs, the parser finds this skeleton in every rendering
of the document.
-/
import Mathlib.Data.List.DropRight
import Mathlib.Data.List.Find
import StreetJS.GraphQl.Mentions

namespace StreetJS.GraphQl

open StreetJS.Lib List

/-! ## Tokens -/

inductive Tok where
  | ch (c : Char)
  | group (content : List Mark)

/-- A parenthesis, up to the next one that closes. -/
def groupAt : List Mark → Option (List Mark × Nat)
  | .ch '(' :: ms =>
    if .ch ')' ∈ ms then some (ms.takeWhile (· != .ch ')'), (ms.takeWhile (· != .ch ')')).length + 1) else none
  | _ => none

/-- Mentions stand in parentheses, and every parenthesis is closed. -/
def tokensOf : List (Mark ⊕ List Mark) → Option (List Tok)
  | [] => some []
  | .inl (.ch c) :: ms => if c = '(' then none else (tokensOf ms).map (.ch c :: ·)
  | .inl (.mention _) :: _ => none
  | .inr content :: ms => (tokensOf ms).map (.group content :: ·)

def tokens (ms : List Mark) : Option (List Tok) := tokensOf (scan groupAt 0 ms)

def renderToken (f : QueryText → QueryText) : Tok → QueryText
  | .ch c => [c]
  | .group content => '(' :: (render f content ++ [')'])

def renderTokens (f : QueryText → QueryText) (ts : List Tok) : QueryText := ts.flatMap (renderToken f)

/-- Braces in pairs, with `depth` of them open. -/
def balanced : Nat → QueryText → Bool
  | 0, [] => true
  | _ + 1, [] => false
  | depth, '{' :: s => balanced (depth + 1) s
  | 0, '}' :: _ => false
  | depth + 1, '}' :: s => balanced depth s
  | depth, _ :: s => balanced depth s

/-- A token that the parser meets as one: the text of a parenthesis does not close it, and has its braces in pairs. -/
def Fits (f : QueryText → QueryText) : Tok → Prop
  | .ch c => c ≠ '('
  | .group content => ')' ∉ render f content ∧ balanced 0 (render f content) = true

/-! ## Reading the skeleton -/

def charsWhile (p : Char → Bool) : List Tok → QueryText
  | .ch c :: ts => if p c then c :: charsWhile p ts else []
  | _ => []

def dropChars (p : Char → Bool) : List Tok → List Tok
  | .ch c :: ts => if p c then dropChars p ts else .ch c :: ts
  | ts => ts

def tokName (ts : List Tok) : Option (QueryText × List Tok) :=
  match ts with
  | .ch c :: _ => if isNameStart c then some (charsWhile isWord ts, dropChars isWord ts) else none
  | _ => none

def tokAlias (name : QueryText) (ts : List Tok) : QueryText × Option QueryText × List Tok :=
  match dropChars (· == ' ') ts with
  | .ch ':' :: r =>
    match tokName (dropChars isSpace r) with
    | some (fieldName, r) => (fieldName, some name, r)
    | none => (name, some name, dropChars isSpace r)
  | r => (name, none, r)

def tokArgs (ts : List Tok) : List Mark × List Tok :=
  match ts with
  | .group content :: r => (content, r)
  | _ => ([], ts)

def tokBlock : Nat → List Tok → Option (List Tok × List Tok)
  | _, [] => none
  | depth, .ch '{' :: ts => (tokBlock (depth + 1) ts).map fun r => (.ch '{' :: r.1, r.2)
  | 0, .ch '}' :: ts => some ([], ts)
  | depth + 1, .ch '}' :: ts => (tokBlock depth ts).map fun r => (.ch '}' :: r.1, r.2)
  | depth, t :: ts => (tokBlock depth ts).map fun r => (t :: r.1, r.2)

/-- A field with the text of its arguments, marked. -/
inductive SkeletonField where
  | mk (name : QueryText) (fieldAlias : Option QueryText) (args : List Mark) (selectionSet : Option (List SkeletonField))

/-- The fields, where each parenthesis stands behind a name and each block is closed. -/
def readFields : Nat → List Tok → Option (List SkeletonField)
  | 0, _ => some []
  | n + 1, ts =>
    let body := dropChars isSpace ts
    match tokName body with
    | none =>
      match body with
      | [] => some []
      | .ch _ :: r => readFields n r
      | .group _ :: _ => none
    | some (first, r) =>
      let (name, fieldAlias, r) := tokAlias first r
      let (args, r) := tokArgs (dropChars isSpace r)
      match dropChars isSpace r with
      | .ch '{' :: r =>
        match tokBlock 0 r with
        | none => none
        | some (inner, rest) =>
          match readFields n inner, readFields n rest with
          | some fields, some more => some (.mk name fieldAlias args (some fields) :: more)
          | _, _ => none
      | r => (readFields n r).map (.mk name fieldAlias args none :: ·)

def passGroup : List Tok → List Tok
  | .group _ :: ts => ts
  | ts => ts

/-- An operation at the head, its name and the tokens behind the brace. -/
def tokOp (ts : List Tok) : Option (Operation × QueryText × List Tok) :=
  match keywordAt (charsWhile (fun _ => true) ts) with
  | none => none
  | some (operation, n) =>
    let r := dropChars isSpace (ts.drop n)
    match dropChars isSpace (passGroup (dropChars isSpace (dropChars isWord r))) with
    | .ch '{' :: rest => some (operation, charsWhile isWord r, rest)
    | _ => none

def firstOp : Bool → List Tok → Option (Operation × QueryText × List Tok)
  | _, [] => none
  | _, .group _ :: ts => firstOp false ts
  | before, .ch c :: ts =>
    match (if before then none else tokOp (.ch c :: ts)) with
    | some m => some m
    | none => firstOp (isWord c) ts

/-- The parentheses that are passed over on the way to the first operation. -/
def groupsAhead : Bool → List Tok → List (List Mark)
  | _, [] => []
  | _, .group content :: ts => content :: groupsAhead false ts
  | before, .ch c :: ts =>
    match (if before then none else tokOp (.ch c :: ts)) with
    | some _ => []
    | none => groupsAhead (isWord c) ts

/-- The beginning of an operation: a keyword, perhaps a name, and what opens its variables or its selection set. -/
def opensAt (s : QueryText) : Bool :=
  match keywordAt s with
  | none => false
  | some (_, n) =>
    match (((s.drop n).dropWhile isSpace).dropWhile isWord).dropWhile isSpace with
    | '(' :: _ => true
    | '{' :: _ => true
    | _ => false

def opening : Bool → QueryText → Bool
  | _, [] => false
  | before, c :: s => (!before && opensAt (c :: s)) || opening (isWord c) s

/-- The first operation with its selection set, written with its keyword or in short. -/
def readDocument (ts : List Tok) : Option (Operation × QueryText × List SkeletonField) :=
  match firstOp false ts with
  | some (operation, name, rest) =>
    (tokBlock 0 rest).bind fun b => (readFields b.1.length b.1).map fun fields => (operation, name, fields)
  | none =>
    match dropChars isSpace ts with
    | .ch '{' :: rest =>
      (tokBlock 0 rest).bind fun b => (readFields b.1.length b.1).map fun fields => (.query, [], fields)
    | _ => none

mutual

/-- The field as the parser reads it in a rendering. -/
def SkeletonField.parsed (f : QueryText → QueryText) : SkeletonField → ParsedField
  | .mk name fieldAlias args selectionSet =>
    .mk name fieldAlias (collectArgs (found argAt (render f args))) (nestedParsed f selectionSet)

def nestedParsed (f : QueryText → QueryText) : Option (List SkeletonField) → Option (List ParsedField)
  | none => none
  | some fields => some (parsedFields f fields)

def parsedFields (f : QueryText → QueryText) : List SkeletonField → List ParsedField
  | [] => []
  | field :: fields => field.parsed f :: parsedFields f fields

end

/-! ## Renderings -/

section

variable {f : QueryText → QueryText}

@[simp] theorem renderTokens_nil : renderTokens f [] = [] := rfl

@[simp] theorem renderTokens_ch (c : Char) (ts : List Tok) : renderTokens f (.ch c :: ts) = c :: renderTokens f ts := rfl

@[simp] theorem renderTokens_group (content : List Mark) (ts : List Tok) :
    renderTokens f (.group content :: ts) = '(' :: (render f content ++ ')' :: renderTokens f ts) := by
  simp [renderTokens, renderToken]

theorem takeWhile_close {ms : List Mark} (h : .ch ')' ∈ ms) :
    ms.take ((ms.takeWhile (· != .ch ')')).length + 1) = ms.takeWhile (· != .ch ')') ++ [.ch ')'] := by
  induction ms with
  | nil => cases h
  | cons m ms ih =>
    by_cases hm : m = .ch ')'
    · subst hm
      simp
    · have hmem : .ch ')' ∈ ms := by
        rcases mem_cons.1 h with h | h
        · exact absurd h.symm hm
        · exact h
      rw [takeWhile_cons_of_pos (by simpa using hm), length_cons, take_succ_cons, ih hmem, cons_append]

variable {ts : List Tok}

theorem renderTokens_tokensOf {xs : List (Mark ⊕ List Mark)} (h : tokensOf xs = some ts) :
    renderTokens f ts = render f (xs.flatMap (Sum.elim (fun m => [m]) fun content => .ch '(' :: (content ++ [.ch ')']))) := by
  induction xs generalizing ts with
  | nil =>
    cases h
    rfl
  | cons x xs ih =>
    rcases x with (c | name) | content
    · simp only [tokensOf, Option.ite_none_left_eq_some] at h
      obtain ⟨ts, hts, rfl⟩ := Option.map_eq_some_iff.1 h.2
      rw [renderTokens_ch, ih hts]
      rfl
    · cases h
    · obtain ⟨ts, hts, rfl⟩ := Option.map_eq_some_iff.1 h
      rw [renderTokens_group, ih hts]
      simp [render, render_append]

theorem replaceAll_groups (ms : List Mark) : replaceAll groupAt (fun content => .ch '(' :: (content ++ [.ch ')'])) ms = ms := by
  apply replaceAll_self
  intro m ms content n hat
  unfold groupAt at hat
  split at hat
  · rename_i heq
    cases heq
    split at hat
    · rename_i hmem
      cases hat
      rw [takeWhile_close hmem]
    · cases hat
  · cases hat

theorem renderTokens_tokens {ms : List Mark} (h : tokens ms = some ts) : renderTokens f ts = render f ms := by
  rw [renderTokens_tokensOf h]
  exact congrArg (render f) (replaceAll_groups ms)

theorem takeWhile_renderTokens {p : Char → Bool} (hp : p '(' = false) (ts : List Tok) :
    (renderTokens f ts).takeWhile p = charsWhile p ts := by
  induction ts with
  | nil => rfl
  | cons t ts ih =>
    cases t with
    | ch c => simp only [renderTokens_ch, takeWhile_cons, charsWhile, ih]
    | group content => simp [charsWhile, hp]

theorem dropWhile_renderTokens {p : Char → Bool} (hp : p '(' = false) (ts : List Tok) :
    (renderTokens f ts).dropWhile p = renderTokens f (dropChars p ts) := by
  induction ts with
  | nil => rfl
  | cons t ts ih =>
    cases t with
    | ch c =>
      simp only [renderTokens_ch, dropWhile_cons, dropChars, ih]
      split <;> simp
    | group content => simp [dropChars, hp]

theorem dropChars_suffix (p : Char → Bool) (ts : List Tok) : dropChars p ts <:+ ts := by
  induction ts with
  | nil => exact suffix_refl []
  | cons t ts ih =>
    cases t with
    | ch c =>
      unfold dropChars
      split
      · exact ih.trans (suffix_cons _ ts)
      · exact suffix_refl _
    | group content => exact suffix_refl _

theorem readName_render (ts : List Tok) : readName (renderTokens f ts) = (tokName ts).map fun r => (r.1, renderTokens f r.2) := by
  cases ts with
  | nil => rfl
  | cons t ts =>
    cases t with
    | ch c =>
      have htake := takeWhile_renderTokens (f := f) (p := isWord) (by decide) (.ch c :: ts)
      have hdrop := dropWhile_renderTokens (f := f) (p := isWord) (by decide) (.ch c :: ts)
      have hhead : (renderTokens f (.ch c :: ts)).head?.any isNameStart = isNameStart c := rfl
      unfold readName
      rw [htake, hdrop, hhead]
      by_cases hstart : isNameStart c = true
      · simp only [tokName, hstart, if_true, Option.map_some]
      · simp only [tokName, hstart, if_false, Option.map_none, Bool.false_eq_true]
    | group content =>
      have hparen : isNameStart '(' = false := by decide
      simp [readName, tokName, hparen]

theorem tokName_suffix {r : List Tok} {name : QueryText} (h : tokName ts = some (name, r)) : r <:+ ts ∧ r.length < ts.length := by
  unfold tokName at h
  split at h
  · rename_i c ts
    split at h
    · rename_i hstart
      cases h
      have hword : isWord c = true := by
        unfold isWord Char.isAlphanum
        rcases Bool.or_eq_true_iff.1 hstart with h | h <;> simp [h]
      have hdrop : dropChars isWord (.ch c :: ts) = dropChars isWord ts := by
        simp only [dropChars, hword, if_true]
      rw [hdrop]
      have hsuffix := dropChars_suffix isWord ts
      refine ⟨hsuffix.trans (suffix_cons _ ts), ?_⟩
      have := hsuffix.length_le
      rw [length_cons]
      omega
    · cases h
  · cases h

theorem readAlias_render (name : QueryText) (ts : List Tok) : readAlias name (renderTokens f ts) =
      ((tokAlias name ts).1, (tokAlias name ts).2.1, renderTokens f (tokAlias name ts).2.2) := by
  have hblank := dropWhile_renderTokens (f := f) (p := (· == ' ')) (by decide) ts
  unfold readAlias tokAlias
  rw [hblank]
  rcases dropChars (· == ' ') ts with - | ⟨c | content, r⟩
  · rfl
  · by_cases hc : c = ':'
    · subst hc
      have hspace := dropWhile_renderTokens (f := f) (p := isSpace) (by decide) r
      simp only [renderTokens_ch, hspace, readName_render]
      cases tokName (dropChars isSpace r) with
      | none => rfl
      | some r => rfl
    · simp [hc]
  · simp

theorem tokAlias_suffix (name : QueryText) (ts : List Tok) : (tokAlias name ts).2.2 <:+ ts := by
  have hblank := dropChars_suffix (· == ' ') ts
  unfold tokAlias
  split
  · rename_i r heq
    rw [heq] at hblank
    have hspace := (dropChars_suffix isSpace r).trans ((suffix_cons _ r).trans hblank)
    split
    · rename_i r' hname
      exact (tokName_suffix hname).1.trans hspace
    · exact hspace
  · exact hblank

theorem readArgs_render (h : ∀ t ∈ ts, Fits f t) : readArgs (renderTokens f ts) =
      (collectArgs (found argAt (render f (tokArgs ts).1)), renderTokens f (tokArgs ts).2) := by
  rcases ts with - | ⟨c | content, ts⟩
  · rfl
  · have hc : c ≠ '(' := h _ mem_cons_self
    have hargs : readArgs (c :: renderTokens f ts) = ([], c :: renderTokens f ts) := by
      unfold readArgs
      split
      · rename_i heq
        cases heq
        exact absurd rfl hc
      · rfl
    rw [renderTokens_ch, hargs]
    rfl
  · obtain ⟨hclose, -⟩ := h _ mem_cons_self
    have hall : ∀ c ∈ render f content, (c != ')') = true := by
      intro c hc
      rw [bne_iff_ne]
      rintro rfl
      exact hclose hc
    have htake : (render f content ++ ')' :: renderTokens f ts).takeWhile (· != ')') = render f content := by
      rw [takeWhile_append_of_pos hall]
      simp
    have hdrop : (render f content ++ ')' :: renderTokens f ts).dropWhile (· != ')') = ')' :: renderTokens f ts := by
      rw [dropWhile_append_of_pos hall]
      simp
    simp only [renderTokens_group, readArgs, tokArgs, htake, hdrop, tail_cons]
    rw [if_pos (by simp)]

theorem tokArgs_suffix (ts : List Tok) : (tokArgs ts).2 <:+ ts := by
  unfold tokArgs
  split
  · exact suffix_cons _ _
  · exact suffix_refl _

/-! ## Blocks -/

theorem block_other {c : Char} (hopen : c ≠ '{') (hclose : c ≠ '}') (depth : Nat) (s : QueryText) :
    block depth (c :: s) = (block depth s).map fun r => (c :: r.1, r.2) := by
  rw [block] <;> simp [hopen, hclose]

theorem balanced_other {c : Char} (hopen : c ≠ '{') (hclose : c ≠ '}') (depth : Nat) (s : QueryText) :
    balanced depth (c :: s) = balanced depth s := by
  rw [balanced] <;> simp [hopen, hclose]

theorem balanced_open (depth : Nat) (s : QueryText) : balanced depth ('{' :: s) = balanced (depth + 1) s := by
  cases depth <;> rfl

theorem block_append {k : Nat} {t : QueryText} (ht : balanced k t = true) (depth : Nat) (s : QueryText) :
    block (depth + k) (t ++ s) = (block depth s).map fun r => (t ++ r.1, r.2) := by
  induction t generalizing k with
  | nil =>
    cases k with
    | zero => simp
    | succ k => cases ht
  | cons c t ih =>
    by_cases hopen : c = '{'
    · subst hopen
      rw [balanced_open] at ht
      have hstep : block (depth + k) ('{' :: (t ++ s)) = (block (depth + (k + 1)) (t ++ s)).map fun r => ('{' :: r.1, r.2) := rfl
      rw [cons_append, hstep, ih ht, Option.map_map]
      rfl
    · by_cases hclose : c = '}'
      · subst hclose
        cases k with
        | zero => cases ht
        | succ k =>
          have ht : balanced k t = true := ht
          have hstep : block (depth + (k + 1)) ('}' :: (t ++ s)) = (block (depth + k) (t ++ s)).map fun r => ('}' :: r.1, r.2) := rfl
          rw [cons_append, hstep, ih ht, Option.map_map]
          rfl
      · rw [balanced_other hopen hclose] at ht
        rw [cons_append, block_other hopen hclose, ih ht, Option.map_map]
        rfl

theorem tokBlock_other {c : Char} (hopen : c ≠ '{') (hclose : c ≠ '}') (depth : Nat) (ts : List Tok) :
    tokBlock depth (.ch c :: ts) = (tokBlock depth ts).map fun r => (.ch c :: r.1, r.2) := by
  rw [tokBlock] <;> simp [hopen, hclose]

theorem block_render (h : ∀ t ∈ ts, Fits f t) (depth : Nat) :
    block depth (renderTokens f ts) = (tokBlock depth ts).map fun r => (renderTokens f r.1, renderTokens f r.2) := by
  induction ts generalizing depth with
  | nil => rfl
  | cons t ts ih =>
    rw [forall_mem_cons] at h
    have ih := ih h.2
    cases t with
    | ch c =>
      by_cases hopen : c = '{'
      · subst hopen
        rw [renderTokens_ch, block, tokBlock, ih, Option.map_map, Option.map_map]
        rfl
      · by_cases hclose : c = '}'
        · subst hclose
          cases depth with
          | zero => rfl
          | succ depth =>
            rw [renderTokens_ch, block, tokBlock, ih, Option.map_map, Option.map_map]
            rfl
        · rw [renderTokens_ch, block_other hopen hclose, tokBlock_other hopen hclose, ih, Option.map_map, Option.map_map]
          rfl
    | group content =>
      have hpass : block depth (render f content ++ ')' :: renderTokens f ts) =
          (block depth (')' :: renderTokens f ts)).map fun r => (render f content ++ r.1, r.2) :=
        block_append h.1.2 depth _
      have htok : tokBlock depth (.group content :: ts) = (tokBlock depth ts).map fun r => (.group content :: r.1, r.2) := by
        cases depth <;> rfl
      rw [renderTokens_group, block_other (by decide) (by decide), hpass, block_other (by decide) (by decide), htok, ih,
        Option.map_map, Option.map_map, Option.map_map, Option.map_map]
      congr 1
      funext r
      simp

theorem tokBlock_eq {depth : Nat} {inner rest : List Tok} (h : tokBlock depth ts = some (inner, rest)) : ts = inner ++ .ch '}' :: rest := by
  induction ts generalizing depth inner with
  | nil => cases h
  | cons t ts ih =>
    have hstep : ∀ depth', (tokBlock depth' ts).map (fun r => (t :: r.1, r.2)) = some (inner, rest) → t :: ts = inner ++ .ch '}' :: rest := by
      intro depth' hmap
      obtain ⟨r, hr, heq⟩ := Option.map_eq_some_iff.1 hmap
      cases heq
      rw [ih hr, cons_append]
    cases t with
    | ch c =>
      by_cases hopen : c = '{'
      · subst hopen
        exact hstep (depth + 1) h
      · by_cases hclose : c = '}'
        · subst hclose
          cases depth with
          | zero =>
            cases h
            rfl
          | succ depth => exact hstep depth h
        · rw [tokBlock_other hopen hclose] at h
          exact hstep depth h
    | group content =>
      apply hstep depth
      rw [← h]
      cases depth <;> rfl

/-! ## The parser finds the skeleton -/

theorem renderTokens_append (ts us : List Tok) : renderTokens f (ts ++ us) = renderTokens f ts ++ renderTokens f us := by
  simp [renderTokens]

theorem length_le_renderTokens (ts : List Tok) : ts.length ≤ (renderTokens f ts).length := by
  induction ts with
  | nil => exact Nat.le_refl 0
  | cons t ts ih =>
    cases t with
    | ch c => simpa using ih
    | group content =>
      simp only [renderTokens_group, length_cons, length_append]
      omega

theorem length_renderTokens_infix {us : List Tok} (h : us <:+: ts) :
    (renderTokens f us).length + (ts.length - us.length) ≤ (renderTokens f ts).length := by
  obtain ⟨lead, rest, rfl⟩ := h
  have := length_le_renderTokens (f := f) lead
  have := length_le_renderTokens (f := f) rest
  simp only [renderTokens_append, length_append]
  omega

theorem parseFields_nil (n : Nat) : parseFields n [] = [] := by
  cases n <;> rfl

/-- Where the tokens give a skeleton, the parser finds it in the rendering, if it may take as many steps as there are
characters. -/
theorem parseFields_render {m n : Nat} {fields : List SkeletonField} (hfits : ∀ t ∈ ts, Fits f t)
    (hread : readFields m ts = some fields) (hm : ts.length ≤ m) (hn : (renderTokens f ts).length ≤ n) :
    parseFields n (renderTokens f ts) = parsedFields f fields := by
  induction m generalizing n ts fields with
  | zero =>
    obtain rfl : ts = [] := length_eq_zero_iff.1 (by omega)
    cases hread
    exact parseFields_nil n
  | succ m ih =>
    have hlength := length_le_renderTokens (f := f) ts
    cases n with
    | zero =>
      obtain rfl : ts = [] := length_eq_zero_iff.1 (by omega)
      cases hread
      rfl
    | succ n =>
      have hbody := dropChars_suffix isSpace ts
      have hspace := dropWhile_renderTokens (f := f) (p := isSpace) (by decide)
      -- what is left behind at least one token is read and parsed in the same way
      have hrest : ∀ {us : List Tok} {more : List SkeletonField}, us <:+: ts → us.length < ts.length →
          readFields m us = some more → parseFields n (renderTokens f us) = parsedFields f more := by
        intro us more hus hlt hmore
        have := length_renderTokens_infix (f := f) hus
        exact ih (fun t ht => hfits t (hus.subset ht)) hmore (by omega) (by omega)
      simp only [readFields] at hread
      simp only [parseFields, hspace, readName_render]
      cases hname : tokName (dropChars isSpace ts) with
      | none =>
        rw [hname] at hread
        rcases hb : dropChars isSpace ts with - | ⟨c | content, r⟩
        · rw [hb] at hread
          cases hread
          rfl
        · rw [hb] at hread hbody
          have hr := (suffix_cons (.ch c) r).trans hbody
          have hlt := hbody.length_le
          rw [length_cons] at hlt
          exact hrest hr.isInfix (by omega) hread
        · rw [hb] at hread
          cases hread
      | some found =>
        obtain ⟨first, r⟩ := found
        obtain ⟨hr, hlt⟩ := tokName_suffix hname
        have hts := hbody.length_le
        have halias := (tokAlias_suffix first r).trans (hr.trans hbody)
        have hparen := (dropChars_suffix isSpace _).trans halias
        have hargs := (tokArgs_suffix _).trans hparen
        have hbrace := (dropChars_suffix isSpace _).trans hargs
        have hshort := ((dropChars_suffix isSpace _).trans ((tokArgs_suffix _).trans ((dropChars_suffix isSpace _).trans
          (tokAlias_suffix first r)))).length_le
        have hreadArgs := readArgs_render fun t ht => hfits t (hparen.subset ht)
        rw [hname] at hread
        simp only [Option.map_some, readAlias_render, hspace, hreadArgs]
        simp only at hread
        generalize dropChars isSpace (tokArgs (dropChars isSpace (tokAlias first r).2.2)).2 = behind at hread hbrace hshort ⊢
        have hsame : ∀ {more : List SkeletonField}, readFields m behind = some more →
            parseFields n (renderTokens f behind) = parsedFields f more :=
          hrest hbrace.isInfix (by omega)
        rcases behind with - | ⟨c | content, r'⟩
        · obtain ⟨more, hmore, rfl⟩ := Option.map_eq_some_iff.1 hread
          rw [parsedFields, ← hsame hmore]
          rfl
        · by_cases hc : c = '{'
          · subst hc
            simp only at hread
            split at hread
            · cases hread
            · rename_i inner rest hblock
              split at hread
              · rename_i nested more hnested hmore
                cases hread
                have heq := tokBlock_eq hblock
                have hr' := ((suffix_cons _ r').trans hbrace).isInfix
                have hinner : inner <:+: ts := List.IsInfix.trans ⟨[], .ch '}' :: rest, heq.symm⟩ hr'
                have hbehind : rest <:+: ts := List.IsInfix.trans ⟨inner ++ [.ch '}'], [], by simp [heq]⟩ hr'
                have hcut : block 0 (renderTokens f r') = some (renderTokens f inner, renderTokens f rest) := by
                  rw [block_render fun t ht => hfits t (hr'.subset ht), hblock]
                  rfl
                rw [heq, length_cons, length_append, length_cons] at hshort
                simp only [renderTokens_ch, hcut, Option.getD_some, parsedFields, SkeletonField.parsed, nestedParsed,
                  hrest hinner (by omega) hnested, hrest hbehind (by omega) hmore]
              · cases hread
          · split at hread
            · rename_i heq
              cases heq
              exact absurd rfl hc
            · obtain ⟨more, hmore, rfl⟩ := Option.map_eq_some_iff.1 hread
              rw [parsedFields, ← hsame hmore, renderTokens_ch]
              split
              · rename_i heq
                cases heq
                exact absurd rfl hc
              · rfl
        · obtain ⟨more, hmore, rfl⟩ := Option.map_eq_some_iff.1 hread
          rw [parsedFields, ← hsame hmore]
          rfl

/-! ## Operations -/

theorem prefix_map_append {k a b : QueryText} (hb : ∀ c ∈ b.head?, c.toLower ∉ k) :
    k.isPrefixOf ((a ++ b).map Char.toLower) = k.isPrefixOf (a.map Char.toLower) := by
  induction k generalizing a with
  | nil => simp
  | cons d k ih =>
    cases a with
    | nil =>
      cases b with
      | nil => rfl
      | cons c b =>
        have hc := hb c (by simp)
        rw [mem_cons, not_or] at hc
        have hne : (d == c.toLower) = false := by
          rw [beq_eq_false_iff_ne]
          exact Ne.symm hc.1
        simp [List.isPrefixOf, hne]
    | cons c a =>
      have ih := ih (a := a) fun e he => fun hmem => hb e he (mem_cons_of_mem _ hmem)
      simp only [cons_append, map_cons, List.isPrefixOf]
      rw [ih]

theorem keywordAt_append {a b : QueryText} (hb : ∀ c ∈ b.head?, c = '(' ∨ c = ')') : keywordAt (a ++ b) = keywordAt a := by
  have hnone : ∀ k ∈ keywords, ∀ c ∈ b.head?, c.toLower ∉ k.1 := by
    intro k hk c hc
    rcases hb c hc with rfl | rfl <;> revert k <;> decide
  unfold keywordAt
  rw [find?_congr fun k hk => prefix_map_append (hnone k hk)]

theorem keywordAt_length {s : QueryText} {operation : Operation} {n : Nat} (h : keywordAt s = some (operation, n)) : n ≤ s.length := by
  obtain ⟨k, hk, heq⟩ := Option.map_eq_some_iff.1 h
  cases heq
  have hfound := find?_some hk
  simpa using (List.isPrefixOf_iff_prefix.1 hfound).length_le

theorem charsWhile_true_spec (ts : List Tok) : ∃ rest, renderTokens f ts = charsWhile (fun _ => true) ts ++ renderTokens f rest ∧
      (∀ c ∈ (renderTokens f rest).head?, c = '(') ∧
      ∀ n ≤ (charsWhile (fun _ => true) ts).length, (renderTokens f ts).drop n = renderTokens f (ts.drop n) := by
  induction ts with
  | nil => exact ⟨[], rfl, by simp, by simp⟩
  | cons t ts ih =>
    cases t with
    | ch c =>
      obtain ⟨rest, heq, hhead, hdrop⟩ := ih
      refine ⟨rest, ?_, hhead, ?_⟩
      · rw [renderTokens_ch, heq]
        rfl
      · intro n hn
        cases n with
        | zero => rfl
        | succ n =>
          simp only [charsWhile, if_true, length_cons] at hn
          exact hdrop n (by omega)
    | group content =>
      refine ⟨.group content :: ts, rfl, by simp, ?_⟩
      intro n hn
      obtain rfl : n = 0 := by simpa [charsWhile] using hn
      rfl

theorem passParens_render (h : ∀ t ∈ ts, Fits f t) : passParens (renderTokens f ts) = renderTokens f (passGroup ts) := by
  rcases ts with - | ⟨c | content, ts⟩
  · rfl
  · have hc : c ≠ '(' := h _ mem_cons_self
    unfold passParens
    split
    · rename_i heq
      cases heq
      exact absurd rfl hc
    · rfl
  · have hargs := readArgs_render h
    rw [renderTokens_group] at hargs ⊢
    simp only [readArgs] at hargs
    rw [if_pos (by simp)] at hargs
    simp only [passParens]
    rw [if_pos (by simp)]
    exact congrArg Prod.snd hargs

theorem passGroup_suffix (ts : List Tok) : passGroup ts <:+ ts := by
  unfold passGroup
  split
  · exact suffix_cons _ _
  · exact suffix_refl _

theorem opAt_render (h : ∀ t ∈ ts, Fits f t) : opAt (renderTokens f ts) = (tokOp ts).map fun m => (m.1, m.2.1, renderTokens f m.2.2) := by
  obtain ⟨rest, heq, hhead, hdrop⟩ := charsWhile_true_spec (f := f) ts
  have hkeyword : keywordAt (renderTokens f ts) = keywordAt (charsWhile (fun _ => true) ts) := by
    rw [heq]
    exact keywordAt_append fun c hc => .inl (hhead c hc)
  have hspace := dropWhile_renderTokens (f := f) (p := isSpace) (by decide)
  have hword := dropWhile_renderTokens (f := f) (p := isWord) (by decide)
  have hname := takeWhile_renderTokens (f := f) (p := isWord) (by decide)
  unfold opAt tokOp
  rw [hkeyword]
  cases hk : keywordAt (charsWhile (fun _ => true) ts) with
  | none => rfl
  | some k =>
    obtain ⟨operation, n⟩ := k
    have hsuffix : dropChars isSpace (dropChars isWord (dropChars isSpace (ts.drop n))) <:+ ts :=
      (dropChars_suffix _ _).trans ((dropChars_suffix _ _).trans ((dropChars_suffix _ _).trans (drop_suffix n ts)))
    simp only [hdrop n (keywordAt_length hk), hspace, hword, hname, passParens_render fun t ht => h t (hsuffix.subset ht)]
    rcases dropChars isSpace (passGroup (dropChars isSpace (dropChars isWord (dropChars isSpace (ts.drop n))))) with
      - | ⟨c | content, r⟩
    · rfl
    · by_cases hc : c = '{'
      · subst hc
        rfl
      · simp [hc]
    · simp

end

/-! ## Passing over a parenthesis -/

theorem dropWhile_append_stop {p : Char → Bool} {a : Char} (ha : p a = false) (t s : QueryText) :
    (t ++ a :: s).dropWhile p = t.dropWhile p ++ a :: s := by
  induction t with
  | nil => simp [ha]
  | cons c t ih =>
    simp only [cons_append, dropWhile_cons, ih]
    split <;> simp

/-- Nothing starts in front of a parenthesis that closes, when no operation begins there. -/
theorem opAt_of_not_opens {t : QueryText} (h : opensAt t = false) (s : QueryText) : opAt (t ++ ')' :: s) = none := by
  have hkeyword : keywordAt (t ++ ')' :: s) = keywordAt t := keywordAt_append fun c hc => .inr (by simpa using hc.symm)
  unfold opensAt at h
  unfold opAt
  rw [hkeyword]
  cases hk : keywordAt t with
  | none => rfl
  | some k =>
    obtain ⟨operation, n⟩ := k
    have hdrop : (t ++ ')' :: s).drop n = t.drop n ++ ')' :: s := drop_append_of_le_length (keywordAt_length hk)
    rw [hk] at h
    simp only at h
    simp only [hdrop, dropWhile_append_stop (p := isSpace) (a := ')') (by decide), dropWhile_append_stop (p := isWord) (a := ')') (by decide)]
    have hidem : (((((t.drop n).dropWhile isSpace).dropWhile isWord).dropWhile isSpace).dropWhile isSpace) =
        (((t.drop n).dropWhile isSpace).dropWhile isWord).dropWhile isSpace := dropWhile_idempotent _ _
    generalize (((t.drop n).dropWhile isSpace).dropWhile isWord).dropWhile isSpace = u at h hidem ⊢
    cases u with
    | nil => simp [passParens, show isSpace ')' = false by decide]
    | cons c u =>
      have hparen : c ≠ '(' := by
        rintro rfl
        cases h
      have hbrace : c ≠ '{' := by
        rintro rfl
        cases h
      have hpass : passParens (c :: (u ++ ')' :: s)) = c :: (u ++ ')' :: s) := by
        unfold passParens
        split
        · rename_i heq
          cases heq
          exact absurd rfl hparen
        · rfl
      rw [cons_append, hpass, ← cons_append, dropWhile_append_stop (by decide), hidem, cons_append]
      split
      · rename_i heq
        cases heq
        exact absurd rfl hbrace
      · rfl

theorem opAt_paren {c : Char} (hc : c = '(' ∨ c = ')') (s : QueryText) : opAt (c :: s) = none := by
  have hkeyword : keywordAt (c :: s) = none := by
    have happend := keywordAt_append (a := []) (b := c :: s) (by simpa using hc)
    rw [nil_append] at happend
    rw [happend]
    rfl
  unfold opAt
  rw [hkeyword]

theorem operations_cons_none {before : Bool} {c : Char} {s : QueryText} (h : opAt (c :: s) = none) :
    operations before 0 (c :: s) = operations (isWord c) 0 s := by
  simp only [operations, h]
  split <;> simp_all

theorem operations_content {t : QueryText} (before : Bool) (h : opening before t = false) (s : QueryText) :
    operations before 0 (t ++ ')' :: s) = operations false 0 s := by
  induction t generalizing before with
  | nil =>
    rw [nil_append, operations_cons_none (opAt_paren (.inr rfl) s)]
    rfl
  | cons c t ih =>
    unfold opening at h
    rw [Bool.or_eq_false_iff, Bool.and_eq_false_iff] at h
    obtain ⟨hhead, htail⟩ := h
    rw [cons_append]
    have hstep : operations before 0 (c :: (t ++ ')' :: s)) = operations (isWord c) 0 (t ++ ')' :: s) := by
      rcases hhead with hbefore | hopens
      · have hbefore : before = true := by simpa using hbefore
        subst hbefore
        rfl
      · exact operations_cons_none (opAt_of_not_opens hopens s)
    rw [hstep, ih _ htail]

section

variable {f : QueryText → QueryText}

variable {ts : List Tok} {operation : Operation} {name : QueryText}

theorem tokOp_suffix {rest : List Tok} (h : tokOp ts = some (operation, name, rest)) : rest <:+ ts := by
  unfold tokOp at h
  split at h
  · cases h
  · rename_i n _
    simp only at h
    split at h
    · rename_i heq
      cases h
      have hsuffix := (dropChars_suffix isSpace _).trans ((passGroup_suffix _).trans ((dropChars_suffix isSpace _).trans
        ((dropChars_suffix isWord _).trans ((dropChars_suffix isSpace _).trans (drop_suffix n ts)))))
      rw [heq] at hsuffix
      exact (suffix_cons _ _).trans hsuffix
    · cases h

theorem firstOp_suffix {before : Bool} {rest : List Tok} (h : firstOp before ts = some (operation, name, rest)) : rest <:+ ts := by
  induction ts generalizing before with
  | nil => cases h
  | cons t ts ih =>
    cases t with
    | group content => exact (ih h).trans (suffix_cons _ ts)
    | ch c =>
      unfold firstOp at h
      split at h
      · rename_i m hm
        cases h
        split at hm
        · cases hm
        · exact tokOp_suffix hm
      · exact (ih h).trans (suffix_cons _ ts)

theorem operations_render (h : ∀ t ∈ ts, Fits f t) (before : Bool)
    (hopen : ∀ content ∈ groupsAhead before ts, opening false (render f content) = false) :
    (operations before 0 (renderTokens f ts)).head? = (firstOp before ts).map fun m => (m.1, m.2.1, renderTokens f m.2.2) := by
  induction ts generalizing before with
  | nil => cases before <;> rfl
  | cons t ts ih =>
    cases t with
    | group content =>
      rw [forall_mem_cons] at h
      simp only [groupsAhead, forall_mem_cons] at hopen
      have hparen : isWord '(' = false := by decide
      rw [renderTokens_group, operations_cons_none (opAt_paren (.inl rfl) _), hparen, operations_content false hopen.1, ih h.2 false hopen.2]
      rfl
    | ch c =>
      have hat := opAt_render h
      have htail := (forall_mem_cons.1 h).2
      rw [renderTokens_ch] at hat ⊢
      cases before with
      | true => exact ih htail _ hopen
      | false =>
        simp only [operations, firstOp, groupsAhead, Bool.false_eq_true, if_false, hat] at hopen ⊢
        cases hop : tokOp (.ch c :: ts) with
        | some m => rfl
        | none =>
          rw [hop] at hopen
          exact ih htail _ hopen

theorem parseDocument_render {query : QueryText} (hquery : stripComments false query = renderTokens f ts)
    (h : ∀ t ∈ ts, Fits f t) (hopen : ∀ content ∈ groupsAhead false ts, opening false (render f content) = false)
    {fields : List SkeletonField}
    (hread : readDocument ts = some (operation, name, fields)) :
    (parseDocument query).head? = some { operation, name := if name = [] then none else some name, fields := parsedFields f fields } := by
  have hops := operations_render h false hopen
  -- the selection set behind a brace of the tokens
  have hblock : ∀ {rest : List Tok} {operation' : Operation} {name' : QueryText}, rest <:+ ts →
      ((tokBlock 0 rest).bind fun b => (readFields b.1.length b.1).map fun fields => (operation', name', fields)) =
        some (operation, name, fields) →
      parsedOperation operation' name' (renderTokens f rest) =
        { operation, name := if name = [] then none else some name, fields := parsedFields f fields } := by
    intro rest operation' name' hrest hbind
    obtain ⟨b, hb, hmap⟩ := Option.bind_eq_some_iff.1 hbind
    obtain ⟨fields', hfields, heq⟩ := Option.map_eq_some_iff.1 hmap
    cases heq
    have hsub : ∀ t ∈ b.1, Fits f t := by
      intro t ht
      apply h t (hrest.subset _)
      rw [tokBlock_eq hb]
      exact mem_append_left _ ht
    have hcut := block_render (fun t ht => h t (hrest.subset ht)) (f := f) 0
    rw [hb] at hcut
    unfold parsedOperation
    rw [hcut]
    simp only [Option.map_some, Option.elim_some, parseSelectionSet, parseFields_render hsub hfields le_rfl le_rfl]
  unfold parseDocument
  simp only [hquery]
  unfold readDocument at hread
  cases hfirst : firstOp false ts with
  | some m =>
    obtain ⟨operation', name', rest⟩ := m
    rw [hfirst] at hops hread
    obtain ⟨more, hmore⟩ := head?_eq_some_iff.1 hops
    simp only [hmore, map_cons, head?_cons]
    exact congrArg some (hblock (firstOp_suffix hfirst) hread)
  | none =>
    rw [hfirst, Option.map_none, head?_eq_none_iff] at hops
    rw [hfirst] at hread
    have hspace := dropWhile_renderTokens (f := f) (p := isSpace) (by decide) ts
    simp only [hops, hspace]
    simp only at hread
    split at hread
    · rename_i rest heq
      have hrest : rest <:+ ts := by
        have := dropChars_suffix isSpace ts
        rw [heq] at this
        exact (suffix_cons _ rest).trans this
      rw [heq]
      exact congrArg some (hblock hrest hread)
    · cases hread

end

end StreetJS.GraphQl
