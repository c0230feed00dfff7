/-
Variables as data: the values whose JSON is read back as one value, the shape of an operation without its arguments,
and the arguments that are written as variables.
-/
import Mathlib.Data.List.Forall2
import StreetJS.GraphQl.Arguments

namespace StreetJS.GraphQl

open StreetJS.Lib List
open Option (map_some some.inj)

/-! ## Values -/

/-- A JSON value as an argument; lists and objects are none. -/
def Json.argValue : Json → Option ArgValue
  | .null => some .null
  | .bool b => some (.bool b)
  | .number n => some (.number (String.ofList n.text))
  | .string s => some (.string (String.ofList s))
  | .array _ => none
  | .object _ => none

/-- A value whose JSON is read back: a number without an exponent, a string without a backslash or a control
character. -/
def Json.Plain : Json → Prop
  | .null => True
  | .bool _ => True
  | .number n => numberAt n.text = some n.text
  | .string s => ∀ c ∈ s, c ≠ '\\' ∧ 32 ≤ c.toNat
  | .array _ => False
  | .object _ => False

/-! ## Strings -/

theorem escapeChar_plain {c : Char} (hquote : c ≠ '"') (hback : c ≠ '\\') (hcontrol : 32 ≤ c.toNat) : escapeChar c = [c] := by
  have hlow : ∀ d : Char, d.toNat < 32 → c ≠ d := by
    rintro d hd rfl
    omega
  unfold escapeChar
  rw [if_neg hquote, if_neg hback, if_neg (hlow _ (by decide)), if_neg (hlow _ (by decide)),
    if_neg (hlow _ (by decide)), if_neg (hlow _ (by decide)), if_neg (hlow _ (by decide)), if_neg (by omega)]

variable {s : QueryText}

theorem stringEnd_escaped (h : ∀ c ∈ s, c ≠ '\\' ∧ 32 ≤ c.toNat) (rest : QueryText) :
    stringEnd (s.flatMap escapeChar ++ '"' :: rest) = some (s.flatMap escapeChar ++ ['"']) := by
  induction s with
  | nil => rfl
  | cons c s ih =>
    obtain ⟨hc, hs⟩ := forall_mem_cons.1 h
    have ih := ih hs
    by_cases hquote : c = '"'
    · subst hquote
      have hescape : escapeChar '"' = ['\\', '"'] := rfl
      have hline : isLineTerminator '"' = false := by decide
      simp only [flatMap_cons, hescape, cons_append, nil_append, stringEnd, hline, Bool.false_eq_true, if_false, ih, map_some]
    · rw [flatMap_cons, escapeChar_plain hquote hc.1 hc.2, singleton_append, cons_append,
        stringEnd_other hquote hc.1, ih, map_some, cons_append]

theorem unescapeQuotes_cons {c : Char} (h : c ≠ '\\') (s : QueryText) : unescapeQuotes (c :: s) = c :: unescapeQuotes s := by
  rw [unescapeQuotes]
  rintro t rfl
  exact absurd rfl h

theorem unescapeQuotes_escaped (h : ∀ c ∈ s, c ≠ '\\' ∧ 32 ≤ c.toNat) : unescapeQuotes (s.flatMap escapeChar) = s := by
  induction s with
  | nil => rfl
  | cons c s ih =>
    obtain ⟨hc, hs⟩ := forall_mem_cons.1 h
    by_cases hquote : c = '"'
    · subst hquote
      exact congrArg ('"' :: ·) (ih hs)
    · rw [flatMap_cons, escapeChar_plain hquote hc.1 hc.2, singleton_append, unescapeQuotes_cons hc.1, ih hs]

/-! ## Numbers -/

variable {rest : QueryText}

theorem takeWhile_append_run {p : Char → Bool} {run : QueryText} (hrun : ∀ c ∈ run, p c = true)
    (hrest : ∀ c ∈ rest.head?, p c = false) : (run ++ rest).takeWhile p = run ∧ (run ++ rest).dropWhile p = rest := by
  rw [takeWhile_append_of_pos hrun, dropWhile_append_of_pos hrun]
  cases rest with
  | nil => simp
  | cons c rest =>
    have hc : p c = false := hrest c (by simp)
    simp [hc]

theorem all_of_takeWhile_eq {p : Char → Bool} (h : s.takeWhile p = s) : ∀ c ∈ s, p c = true := by
  rw [← h]
  exact fun c hc => mem_takeWhile_imp hc

/-- A number that fills its text is the number whatever stands behind it, but for digits and a decimal point. -/
theorem digitsAt_self (h : digitsAt s = some s) (hrest : ∀ c ∈ rest.head?, c.isDigit = false ∧ c ≠ '.') : digitsAt (s ++ rest) = some s := by
  have hsplit := takeWhile_append_dropWhile (p := Char.isDigit) (l := s)
  have hdigit : ∀ c ∈ rest.head?, c.isDigit = false := fun c hc => (hrest c hc).1
  unfold digitsAt at h ⊢
  simp only at h ⊢
  split at h
  · cases h
  · rename_i hwhole
    split at h
    · rename_i r hr
      obtain ⟨htake, hdrop⟩ := takeWhile_append_of_stop (p := Char.isDigit) (s := s) (by rw [hr]; simp) rest
      rw [hr] at hsplit
      split at h
      · have hself := some.inj h
        rw [hself] at hsplit
        have hlength := congrArg List.length hsplit
        simp at hlength
      · rename_i hfraction
        have hself := some.inj h
        have hr' : r.takeWhile Char.isDigit = r :=
          (List.cons.inj (append_cancel_left (hself.trans hsplit.symm))).2
        obtain ⟨hrun, -⟩ := takeWhile_append_run (all_of_takeWhile_eq hr') hdigit
        rw [htake, if_neg hwhole, hdrop, hr, cons_append]
        simp only [hrun, if_neg (hr' ▸ hfraction), hsplit]
    · rename_i hother
      have hself := some.inj h
      obtain ⟨htake, hdrop⟩ := takeWhile_append_run (all_of_takeWhile_eq hself) hdigit
      rw [htake, hdrop, if_neg (hself ▸ hwhole)]
      split
      · rename_i r
        exact absurd rfl (hrest '.' (by simp)).2
      · rfl

theorem numberAt_self (h : numberAt s = some s) (hrest : ∀ c ∈ rest.head?, c.isDigit = false ∧ c ≠ '.') : numberAt (s ++ rest) = some s := by
  cases s with
  | nil => cases h
  | cons c s =>
    by_cases hc : c = '-'
    · subst hc
      obtain ⟨d, hdigits, heq⟩ := Option.map_eq_some_iff.1 h
      obtain rfl := (List.cons.inj heq).2
      exact Option.map_eq_some_iff.2 ⟨d, digitsAt_self hdigits hrest, rfl⟩
    · rw [numberAt_other hc] at h
      rw [cons_append, numberAt_other hc]
      exact digitsAt_self h hrest

theorem numberAt_head {d : QueryText} (h : numberAt s = some d) : ∃ c t, s = c :: t ∧ (c = '-' ∨ c.isDigit = true) := by
  cases s with
  | nil => cases h
  | cons c t =>
    refine ⟨c, t, rfl, ?_⟩
    by_cases hc : c = '-'
    · exact .inl hc
    · right
      rw [numberAt_other hc] at h
      cases hdigit : c.isDigit with
      | true => rfl
      | false =>
        rw [digitsAt_eq_none.2 hdigit] at h
        cases h

/-! ## Plain values are read back -/

theorem isDigit_of_not_word {c : Char} (h : isWord c = false) : c.isDigit = false := by
  unfold isWord Char.isAlphanum at h
  simp only [Bool.or_eq_false_iff] at h
  exact h.1.2

theorem isSpace_of_digit {c : Char} (h : c.isDigit = true) : isSpace c = false := by
  have hle : c ≤ '9' := by
    unfold Char.isDigit at h
    rw [Bool.and_eq_true, decide_eq_true_eq, decide_eq_true_eq] at h
    exact h.2
  unfold isSpace
  rw [Bool.or_eq_false_iff, Bool.and_eq_false_iff]
  constructor
  · rw [← Bool.not_eq_true, contains_iff_mem]
    intro hmem
    have hspaces : ([' ', '\t', '\n', '\u000b', '\u000c', '\r', '\u00a0', '\u1680', '\u2028', '\u2029', '\u202f',
      '\u205f', '\u3000', '\ufeff'].all fun d => !d.isDigit) = true := by decide
    have hdigit := all_eq_true.1 hspaces c hmem
    rw [h] at hdigit
    cases hdigit
  · left
    rw [decide_eq_false_iff_not]
    intro hge
    exact absurd (Char.le_trans hge hle) (by decide)
theorem parseArgValue_stringify {v : Json} (h : v.Plain) : v.argValue = some (parseArgValue v.stringify) := by
  cases v with
  | null => rfl
  | bool b => cases b <;> rfl
  | number n =>
    obtain ⟨c, t, htext, hc⟩ := numberAt_head h
    have hhead : ∀ d u, n.text = d :: u → d = c := by
      intro d u heq
      rw [heq] at htext
      exact (List.cons.inj htext).1
    have hconst : ∀ d u, d ≠ '-' → d.isDigit = false → n.text ≠ d :: u := by
      rintro d u hminus hdigit heq
      obtain rfl := hhead d u heq
      rcases hc with rfl | hc
      · exact hminus rfl
      · rw [hdigit] at hc
        cases hc
    have hquote : n.text.head? ≠ some '"' := by
      rw [htext, head?_cons]
      rintro heq
      exact hconst '"' t (by decide) (by decide) (by rw [htext, some.inj heq])
    unfold Json.stringify parseArgValue
    rw [if_neg (hconst _ _ (by decide) (by decide)), if_neg (hconst _ _ (by decide) (by decide)),
      if_neg (hconst _ _ (by decide) (by decide)), if_neg hquote, if_pos (.inl h)]
    rfl
  | string s =>
    have htail : (quote s).tail.dropLast = s.flatMap escapeChar := by
      unfold quote
      rw [cons_append, tail_cons, dropLast_concat]
    unfold Json.stringify parseArgValue
    rw [htail, unescapeQuotes_escaped h]
    rfl
  | array items => cases h
  | object fields => cases h

theorem constant_valueText {k : QueryText} (hk : k ∈ [['t', 'r', 'u', 'e'], ['f', 'a', 'l', 's', 'e'], ['n', 'u', 'l', 'l']]) :
    ValueText k := by
  simp only [mem_cons, not_mem_nil, or_false] at hk
  rcases hk with rfl | rfl | rfl
  · exact ⟨⟨'t', rfl, by decide⟩, fun rest _ => rfl⟩
  · exact ⟨⟨'f', rfl, by decide⟩, fun rest _ => rfl⟩
  · exact ⟨⟨'n', rfl, by decide⟩, fun rest _ => rfl⟩

theorem stringify_valueText {v : Json} (h : v.Plain) : ValueText v.stringify := by
  cases v with
  | null => exact constant_valueText (by simp [Json.stringify])
  | bool b => cases b <;> exact constant_valueText (by simp [Json.stringify])
  | number n =>
    obtain ⟨c, t, htext, hc⟩ := numberAt_head h
    have hquote : c ≠ '"' := by
      rintro rfl
      revert hc
      decide
    refine ⟨⟨c, by rw [Json.stringify, htext]; rfl, ?_⟩, ?_⟩
    · rcases hc with rfl | hc
      · decide
      · exact isSpace_of_digit hc
    · intro rest hrest
      have hnumber := numberAt_self h fun c hc => ⟨isDigit_of_not_word (hrest c hc).1, (hrest c hc).2⟩
      rw [Json.stringify]
      rw [htext, cons_append] at hnumber ⊢
      rw [valueAt_other hquote, hnumber]
      rfl
  | string s =>
    refine ⟨⟨'"', rfl, by decide⟩, fun rest _ => ?_⟩
    have hend := stringEnd_escaped h rest
    have htext : quote s ++ rest = '"' :: (s.flatMap escapeChar ++ '"' :: rest) := by
      simp [quote]
    rw [Json.stringify, htext, valueAt, hend, map_some]
    rfl
  | array items => cases h
  | object fields => cases h

theorem asWritten_valueText {name : QueryText} (hne : name ≠ []) (hword : name.all isWord = true) : ValueText (asWritten name) := by
  refine ⟨⟨'$', rfl, by decide⟩, fun rest hrest => ?_⟩
  have hrun := takeWhile_append_run (all_eq_true.1 hword) fun c hc => (hrest c hc).1
  show (constantAt ('$' :: (name ++ rest))).or (wordAt ('$' :: (name ++ rest))) = some ('$' :: name)
  have hconstant : constantAt ('$' :: (name ++ rest)) = none := rfl
  rw [hconstant, wordAt, hrun.1, if_neg hne]
  rfl

end StreetJS.GraphQl
