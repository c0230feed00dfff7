/-
A document with its mentions of variables: `$` and the longest name behind it. When what is put in the place of
one variable is not taken for another, replacing the variables one after the other renders every mention by the
value of its own variable; comments fall away with what is mentioned in them.
-/
import StreetJS.GraphQl.Parser
import StreetJS.Lib.Placeholder

namespace StreetJS.GraphQl

open StreetJS.Lib List

/-! ## Marked texts -/

inductive Mark where
  | ch (c : Char)
  | mention (name : QueryText)
deriving DecidableEq

def mentionAt : QueryText → Option (QueryText × Nat)
  | '$' :: s => some (s.takeWhile isWord, (s.takeWhile isWord).length)
  | _ => none

def marks (query : QueryText) : List Mark := (scan mentionAt 0 query).map (Sum.elim .ch .mention)

/-- The text with `f name` in the place of each mention. -/
def render (f : QueryText → QueryText) : List Mark → QueryText
  | [] => []
  | .ch c :: ms => c :: render f ms
  | .mention name :: ms => f name ++ render f ms

def asWritten (name : QueryText) : QueryText := '$' :: name

/-- What stands in the place of a mention when these variables are replaced. -/
def valueText (entries : OrderedMap QueryText Json) (name : QueryText) : QueryText :=
  match entries.get name with
  | some value => value.stringify
  | none => asWritten name

/-- Behind a mention there is neither a character of a name nor another mention. -/
def Separate : List Mark → Prop
  | [] => True
  | .ch c :: ms => c ≠ '$' ∧ Separate ms
  | .mention _ :: ms => (∀ m ∈ ms.head?, ∃ c, m = .ch c ∧ isWord c = false) ∧ Separate ms

/-- A replacement text without patterns. -/
def PlainReplacement (text : QueryText) : Prop := ∀ before matched after, expand before matched after text = text

/-- When a variable's turn comes, its text has no patterns, and what stands in the places of the others by then does
not mention it. -/
def ReplacedInTurn (ms : List Mark) : OrderedMap QueryText Json → OrderedMap QueryText Json → Prop
  | _, [] => True
  | done, (key, value) :: entries =>
    (.mention key ∈ ms → PlainReplacement value.stringify) ∧
      (∀ name, .mention name ∈ ms → name ≠ key → ¬ asWritten key <:+: valueText done name) ∧
      ReplacedInTurn ms (done ++ [(key, value)]) entries

section

variable {f : QueryText → QueryText}

theorem render_append (ms ns : List Mark) : render f (ms ++ ns) = render f ms ++ render f ns := by
  induction ms with
  | nil => rfl
  | cons m ms ih =>
    cases m with
    | ch c => exact congrArg (c :: ·) ih
    | mention name => simp only [cons_append, render, ih, append_assoc]

end

theorem drop_length_takeWhile (p : Char → Bool) (s : QueryText) : s.drop (s.takeWhile p).length = s.dropWhile p := by
  induction s with
  | nil => rfl
  | cons c s ih =>
    by_cases hc : p c = true
    · rw [takeWhile_cons_of_pos hc, dropWhile_cons_of_pos hc, length_cons, drop_succ_cons, ih]
    · rw [takeWhile_cons_of_neg hc, dropWhile_cons_of_neg hc]
      rfl

theorem marks_mention (s : QueryText) : marks ('$' :: s) = .mention (s.takeWhile isWord) :: marks (s.dropWhile isWord) := by
  have hat : mentionAt ('$' :: s) = some (s.takeWhile isWord, (s.takeWhile isWord).length) := rfl
  unfold marks
  rw [scan_cons_some hat, drop_length_takeWhile]
  rfl

theorem marks_ch {c : Char} (h : c ≠ '$') (s : QueryText) : marks (c :: s) = .ch c :: marks s := by
  have hat : mentionAt (c :: s) = none := by
    unfold mentionAt
    split
    · rename_i heq
      cases heq
      exact absurd rfl h
    · rfl
  unfold marks
  rw [scan_cons_none hat]
  rfl

theorem query_induction {P : QueryText → Prop} (nil : P []) (mention : ∀ s, P (s.dropWhile isWord) → P ('$' :: s))
    (ch : ∀ c s, c ≠ '$' → P s → P (c :: s)) (s : QueryText) : P s := by
  induction hn : s.length using Nat.strongRecOn generalizing s with
  | _ n ih =>
    subst hn
    cases s with
    | nil => exact nil
    | cons c s =>
      by_cases hc : c = '$'
      · subst hc
        refine mention s (ih _ ?_ _ rfl)
        have := (dropWhile_sublist (l := s) isWord).length_le
        rw [length_cons]
        omega
      · exact ch c s hc (ih _ (by simp) _ rfl)

theorem render_marks (query : QueryText) : render asWritten (marks query) = query := by
  induction query using query_induction with
  | nil => rfl
  | mention s ih =>
    rw [marks_mention, render, ih, asWritten, cons_append, takeWhile_append_dropWhile]
  | ch c s hc ih => rw [marks_ch hc, render, ih]

/-! ## Replacing the variables -/

theorem prefix_of_boundary {word text rest : QueryText} (hword : word.all isWord = true)
    (hrest : ∀ c ∈ rest.head?, isWord c = false) (h : word <+: text ++ rest) : word <+: text := by
  obtain ⟨tail, h⟩ := h
  rcases append_eq_append_iff.1 h with ⟨more, rfl, -⟩ | ⟨more, rfl, rfl⟩
  · exact prefix_append word more
  · cases more with
    | nil => simp
    | cons c more =>
      have hc : isWord c = true := all_eq_true.1 hword c (by simp)
      have hc' := hrest c (by simp)
      rw [hc] at hc'
      cases hc'

section

variable {key text : QueryText}

theorem replaceVariable_skip (passed rest : QueryText) (before : QueryText) :
    replaceVariable key text before passed.length (passed ++ rest) = replaceVariable key text (before ++ passed) 0 rest := by
  induction passed generalizing before with
  | nil => simp
  | cons c passed ih =>
    simp only [length_cons, cons_append, replaceVariable, ih, append_assoc, nil_append]

theorem replaceVariable_pass (hkey : key.all isWord = true) {passed rest : QueryText}
    (hpassed : ¬ asWritten key <:+: passed) (hrest : ∀ c ∈ rest.head?, isWord c = false) (before : QueryText) :
    replaceVariable key text before 0 (passed ++ rest) = passed ++ replaceVariable key text (before ++ passed) 0 rest := by
  induction passed generalizing before with
  | nil => simp
  | cons c passed ih =>
    have hnot : ¬ asWritten key <+: c :: (passed ++ rest) := by
      intro h
      obtain ⟨rfl, hprefix⟩ := cons_prefix_cons.1 h
      apply hpassed
      apply List.IsPrefix.isInfix
      exact cons_prefix_cons.2 ⟨rfl, prefix_of_boundary hkey hrest hprefix⟩
    have htail : ¬ asWritten key <:+: passed := fun h => hpassed (h.trans (suffix_cons c passed).isInfix)
    have hbool : ('$' :: key).isPrefixOf (c :: (passed ++ rest)) = false := by
      rw [← Bool.not_eq_true, List.isPrefixOf_iff_prefix]
      exact hnot
    simp only [cons_append, replaceVariable, hbool, Bool.false_eq_true, if_false, ih htail, append_assoc, nil_append]

theorem replaceVariable_render (hkey : key.all isWord = true) {f g : QueryText → QueryText} {ms : List Mark}
    (hms : Separate ms) (hplain : .mention key ∈ ms → PlainReplacement text) (hfkey : f key = asWritten key)
    (hgkey : g key = text) (hfg : ∀ name, name ≠ key → g name = f name)
    (hother : ∀ name, .mention name ∈ ms → name ≠ key → ¬ asWritten key <:+: f name) (before : QueryText) :
    replaceVariable key text before 0 (render f ms) = render g ms := by
  induction ms generalizing before with
  | nil => rfl
  | cons m ms ih =>
    have ih := fun hms => ih hms (fun h => hplain (mem_cons_of_mem _ h)) (fun name h => hother name (mem_cons_of_mem _ h))
    cases m with
    | ch c =>
      have hnot : ('$' :: key).isPrefixOf (c :: render f ms) = false := by
        rw [isPrefixOf_cons_cons, beq_false_of_ne (Ne.symm hms.1), Bool.false_and]
      simp only [render, replaceVariable, hnot, Bool.false_eq_true, if_false]
      rw [ih hms.2]
    | mention name =>
      obtain ⟨hnext, hms⟩ := hms
      have hrest : ∀ c ∈ (render f ms).head?, isWord c = false := by
        cases ms with
        | nil => simp [render]
        | cons m ms =>
          obtain ⟨c, rfl, hc⟩ := hnext m (by simp)
          simpa [render] using hc
      by_cases hname : name = key
      · subst hname
        have hat : ('$' :: name).isPrefixOf ('$' :: (name ++ render f ms)) = true := by
          rw [List.isPrefixOf_iff_prefix]
          exact prefix_append ('$' :: name) _
        simp only [render, hfkey, hgkey, asWritten, cons_append, replaceVariable, hat, if_true]
        rw [hplain mem_cons_self, replaceVariable_skip, ih hms]
      · simp only [render, hfg name hname]
        rw [replaceVariable_pass hkey (hother name mem_cons_self hname) hrest, ih hms]

end

theorem valueText_concat {entries : OrderedMap QueryText Json} {key : QueryText} (h : key ∉ entries.map Prod.fst)
    (value : Json) (name : QueryText) :
    valueText (entries ++ [(key, value)]) name = if name = key then value.stringify else valueText entries name := by
  unfold valueText
  rw [← OrderedMap.set_of_not_has h, OrderedMap.get_set]
  by_cases hname : name = key
  · simp only [hname, if_true]
  · simp only [hname, if_false]

theorem substitute_render {ms : List Mark} (hms : Separate ms) (done entries : OrderedMap QueryText Json)
    (hnames : ∀ name ∈ entries.map Prod.fst, isName name = true) (hnodup : ((done ++ entries).map Prod.fst).Nodup)
    (hturn : ReplacedInTurn ms done entries) :
    substitute entries (render (valueText done) ms) = render (valueText (done ++ entries)) ms := by
  induction entries generalizing done with
  | nil => rw [append_nil, substitute]
  | cons e entries ih =>
    obtain ⟨key, value⟩ := e
    obtain ⟨hplain, hother, hturn⟩ := hturn
    have hword : key.all isWord = true := by
      have hname := hnames key (by simp)
      exact (Bool.and_eq_true_iff.1 hname).2
    have hkey : key ∉ done.map Prod.fst := by
      intro hmem
      rw [map_append, nodup_append] at hnodup
      exact hnodup.2.2 _ hmem _ (by simp) rfl
    have hget : valueText done key = asWritten key := by
      unfold valueText
      cases hfound : OrderedMap.get done key with
      | none => rfl
      | some value => exact absurd (mem_map.2 ⟨_, OrderedMap.get_mem hfound, rfl⟩) hkey
    have hconcat := valueText_concat hkey value
    rw [substitute, replaceVariable_render (g := valueText (done ++ [(key, value)])) hword hms hplain hget _ _ hother]
    · rw [ih (done ++ [(key, value)]) _ _ hturn]
      · rw [append_assoc, singleton_append]
      · exact fun name hname => hnames name (by simp [hname])
      · rwa [append_assoc, singleton_append]
    · rw [hconcat, if_pos rfl]
    · intro name hname
      rw [hconcat, if_neg hname]

/-- Where no mention stands directly before another and each variable's turn finds only its own mentions, the
document is rendered with the values. -/
theorem substitute_marks (vars : Variables) {query : QueryText} (hms : Separate (marks query))
    (hturn : ReplacedInTurn (marks query) [] vars.entries) :
    substitute vars.entries query = render (valueText vars.entries) (marks query) := by
  have hraw : valueText [] = asWritten := rfl
  have h := substitute_render hms [] vars.entries vars.names vars.nodup hturn
  rwa [hraw, render_marks] at h

/-! ## Comments -/

def stripMarks : Bool → List Mark → List Mark
  | _, [] => []
  | true, .ch c :: ms => if c = '\n' then .ch '\n' :: stripMarks false ms else stripMarks true ms
  | true, .mention _ :: ms => stripMarks true ms
  | false, .ch c :: ms => if c = '#' then stripMarks true ms else .ch c :: stripMarks false ms
  | false, .mention name :: ms => .mention name :: stripMarks false ms

theorem hexDigit_ne_newline : ∀ n < 16, Nat.digitChar n ≠ '\n' := by
  decide

theorem newline_not_mem_escapeChar (c : Char) : '\n' ∉ escapeChar c := by
  unfold escapeChar
  split
  · decide
  split
  · decide
  split
  · decide
  split
  · decide
  split
  · decide
  split
  · decide
  split
  · decide
  split
  · have hhigh := hexDigit_ne_newline (c.toNat / 16) (by omega)
    have hlow := hexDigit_ne_newline (c.toNat % 16) (by omega)
    simp only [mem_cons, not_mem_nil, or_false, not_or]
    exact ⟨by decide, by decide, by decide, by decide, Ne.symm hhigh, Ne.symm hlow⟩
  · rename_i hnewline _ _ _
    simpa using Ne.symm hnewline

theorem newline_not_mem_comma : '\n' ∉ [','] := by
  decide

theorem newline_not_mem_quote (s : QueryText) : '\n' ∉ quote s := by
  unfold quote
  simp [newline_not_mem_escapeChar]

theorem not_mem_intercalate {c : Char} {sep : QueryText} (hsep : c ∉ sep) :
    ∀ (ss : List QueryText), (∀ s ∈ ss, c ∉ s) → c ∉ sep.intercalate ss
  | [], _ => by simp [List.intercalate]
  | [s], h => by simpa [List.intercalate] using h
  | s :: t :: ss, h => by
    have ih := not_mem_intercalate hsep (t :: ss) fun u hu => h u (mem_cons_of_mem _ hu)
    rw [intercalate_cons_cons]
    simp only [mem_append, not_or]
    exact ⟨⟨h s mem_cons_self, hsep⟩, ih⟩

mutual

theorem newline_not_mem_stringify : ∀ (value : Json), '\n' ∉ value.stringify
  | .null => by decide
  | .bool true => by decide
  | .bool false => by decide
  | .number n => by
    intro h
    have hn := all_eq_true.1 n.numeric _ h
    revert hn
    decide
  | .string s => newline_not_mem_quote s
  | .array items => by
    simp [Json.stringify, not_mem_intercalate newline_not_mem_comma _ (newline_not_mem_stringifyItems items)]
  | .object fields => by
    simp [Json.stringify, not_mem_intercalate newline_not_mem_comma _ (newline_not_mem_stringifyFields fields)]

theorem newline_not_mem_stringifyItems : ∀ (items : List Json), ∀ s ∈ stringifyItems items, '\n' ∉ s
  | [] => by simp [stringifyItems]
  | item :: items => by
    rw [stringifyItems, forall_mem_cons]
    exact ⟨newline_not_mem_stringify item, newline_not_mem_stringifyItems items⟩

theorem newline_not_mem_stringifyFields : ∀ (fields : List (QueryText × Json)), ∀ s ∈ stringifyFields fields, '\n' ∉ s
  | [] => by simp [stringifyFields]
  | (key, value) :: fields => by
    rw [stringifyFields, forall_mem_cons]
    refine ⟨?_, newline_not_mem_stringifyFields fields⟩
    simp [newline_not_mem_quote, newline_not_mem_stringify value]

end

theorem stripComments_skip {passed : QueryText} (h : '\n' ∉ passed) (rest : QueryText) :
    stripComments true (passed ++ rest) = stripComments true rest := by
  induction passed with
  | nil => rfl
  | cons c passed ih =>
    rw [mem_cons, not_or] at h
    simp only [cons_append, stripComments, if_neg (Ne.symm h.1), ih h.2]

theorem stripComments_keep {kept : QueryText} (h : '#' ∉ kept) (rest : QueryText) :
    stripComments false (kept ++ rest) = kept ++ stripComments false rest := by
  induction kept with
  | nil => rfl
  | cons c kept ih =>
    rw [mem_cons, not_or] at h
    simp only [cons_append, stripComments, if_neg (Ne.symm h.1), ih h.2]

theorem stripComments_render {f : QueryText → QueryText} (comment : Bool) {ms : List Mark}
    (hline : ∀ name, .mention name ∈ ms → '\n' ∉ f name) (hhash : ∀ name, .mention name ∈ stripMarks comment ms → '#' ∉ f name) :
    stripComments comment (render f ms) = render f (stripMarks comment ms) := by
  induction ms generalizing comment with
  | nil => cases comment <;> rfl
  | cons m ms ih =>
    have ih := fun comment => ih comment fun name hname => hline name (mem_cons_of_mem _ hname)
    cases comment with
    | true =>
      cases m with
      | ch c =>
        simp only [render, stripComments, stripMarks] at hhash ⊢
        split
        · rename_i hc
          rw [if_pos hc] at hhash
          rw [ih false fun name h => hhash name (mem_cons_of_mem _ h)]
          rfl
        · rename_i hc
          rw [if_neg hc] at hhash
          exact ih true hhash
      | mention name =>
        simp only [render, stripMarks] at hhash ⊢
        rw [stripComments_skip (hline name mem_cons_self), ih true hhash]
    | false =>
      cases m with
      | ch c =>
        simp only [render, stripComments, stripMarks] at hhash ⊢
        split
        · rename_i hc
          rw [if_pos hc] at hhash
          exact ih true hhash
        · rename_i hc
          rw [if_neg hc] at hhash
          rw [ih false fun name h => hhash name (mem_cons_of_mem _ h)]
          rfl
      | mention name =>
        simp only [render, stripMarks] at hhash ⊢
        rw [stripComments_keep (hhash name mem_cons_self), ih false fun n h => hhash n (mem_cons_of_mem _ h)]

end StreetJS.GraphQl
